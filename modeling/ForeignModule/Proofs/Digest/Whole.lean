import ForeignModule.Proofs.Digest.Content

/-!
# Digests see the whole file

A file arrives in chunks of any size, in a buffer that still holds older bytes, and the hasher compresses
a block as soon as it is full. What comes out is the digest of all bytes together.

* `Hasher.Took` is the invariant: the whole blocks of a text have been compressed, and the bytes behind
  them are pending. One more byte preserves it (`Took.feed`), so any bytes do (`Took.update`), and with
  the padding it gives the digest (`Took.finish`);
* `takeIn_chunks`: only the bytes of a read are taken in, wherever the reads cut the text;
* `ofReads_chunks`: the digest of what reads bring is that of their bytes, or it is the first fault.
-/

namespace ForeignModule.Digest

/-! ## Cutting -/

section Cutting

variable {α : Type} {size room : Nat}

/-- Nothing is lost where a list is cut. -/
theorem flatten_cut (size room : Nat) (xs : List α) : (cut size room xs).flatten = xs := by
  fun_induction cut size room xs with
  | case1 => rfl
  | case2 x rest ih => rw [List.flatten_cons, ih, List.singleton_append]
  | case3 x rest ih => rw [List.flatten_cons, ih, List.singleton_append]
  | case4 x rest room hroom hcut ih =>
    rw [hcut, List.flatten_nil] at ih
    rw [← ih]
    rfl
  | case5 x rest room hroom piece more hcut ih =>
    rw [hcut, List.flatten_cons] at ih
    rw [List.flatten_cons, List.cons_append, ih]

/-- No piece is empty. -/
theorem ne_nil_of_mem_cut (size room : Nat) (xs : List α) : ∀ piece ∈ cut size room xs, piece ≠ [] := by
  fun_induction cut size room xs with
  | case1 => simp
  | case2 x rest ih | case3 x rest ih =>
    intro piece hpiece
    rcases List.mem_cons.1 hpiece with rfl | hmore
    · exact List.cons_ne_nil _ _
    · exact ih piece hmore
  | case4 x rest room hroom hcut ih =>
    intro piece hpiece
    rw [List.mem_singleton.1 hpiece]
    exact List.cons_ne_nil _ _
  | case5 x rest room hroom first more hcut ih =>
    intro piece hpiece
    rcases List.mem_cons.1 hpiece with rfl | hmore
    · exact List.cons_ne_nil _ _
    · exact ih piece (hcut ▸ List.mem_cons_of_mem _ hmore)

/-- A piece that fills the room is cut off. -/
theorem cut_append (size : Nat) (rest : List α) {piece : List α} (h : piece.length = room + 1) :
    cut size (room + 1) (piece ++ rest) = piece :: cut size size rest := by
  induction room generalizing piece with
  | zero =>
    rcases List.length_eq_one_iff.1 h with ⟨x, rfl⟩
    rfl
  | succ room ih =>
    cases piece with
    | nil => cases h
    | cons x piece =>
      have hpiece : piece.length = room + 1 := Nat.succ.inj h
      rw [List.cons_append, cut]
      · rw [ih hpiece]
      · simp

/-- Blocks of one size are found again. -/
theorem cut_flatten {blocks : List (List α)} (h : ∀ block ∈ blocks, block.length = size + 1) :
    cut (size + 1) (size + 1) blocks.flatten = blocks := by
  induction blocks with
  | nil => rfl
  | cons block more ih =>
    have hblock : block.length = size + 1 := h block List.mem_cons_self
    have hmore : ∀ b ∈ more, b.length = size + 1 := fun b hb => h b (List.mem_cons_of_mem _ hb)
    rw [List.flatten_cons, cut_append _ _ hblock, ih hmore]

end Cutting

/-! ## What has been taken in -/

namespace Hasher

/-- The hasher has taken in a text. These blocks of it have been compressed. -/
structure Took (h : Hasher) (blocks : List (List UInt8)) (text : List UInt8) : Prop where
  whole : ∀ block ∈ blocks, block.length = 64
  splits : blocks.flatten ++ h.pending.reverse = text
  short : h.pending.length < 64
  words : h.words = blocks.foldl compress initial
  size : h.size = text.length

variable {h : Hasher} {blocks : List (List UInt8)} {text : List UInt8}

theorem length_flatten (whole : ∀ block ∈ blocks, block.length = 64) :
    blocks.flatten.length = 64 * blocks.length := by
  rw [List.length_flatten, List.map_congr_left whole, List.map_const', List.sum_replicate_nat,
    Nat.mul_comm]

theorem Took.length (ht : h.Took blocks text) :
    text.length = 64 * blocks.length + h.pending.length := by
  rw [← ht.splits, List.length_append, length_flatten ht.whole, List.length_reverse]

/-- Before the first byte nothing has been taken in. -/
theorem took_nil : Took {} [] [] := ⟨by simp, rfl, by decide, rfl, rfl⟩

/-- One more byte completes a block or becomes pending. -/
theorem Took.feed (ht : h.Took blocks text) (b : UInt8) :
    ∃ blocks, (h.feed b).Took blocks (text ++ [b]) := by
  have hlength := ht.length
  have hshort := ht.short
  have hsize := ht.size
  have hsplits : blocks.flatten ++ (b :: h.pending).reverse = text ++ [b] := by
    rw [List.reverse_cons, ← List.append_assoc, ht.splits]
  by_cases hfull : (h.size + 1) % 64 = 0
  · have hblock : (b :: h.pending).reverse.length = 64 := by
      rw [List.length_reverse, List.length_cons]
      omega
    refine ⟨blocks ++ [(b :: h.pending).reverse], ?_, ?_, ?_, ?_, ?_⟩
    · intro block hmem
      rcases List.mem_append.1 hmem with hold | hnew
      · exact ht.whole block hold
      · rw [List.mem_singleton.1 hnew, hblock]
    all_goals simp only [Hasher.feed, hfull, if_true]
    · rw [List.flatten_append, List.flatten_singleton, List.reverse_nil, List.append_nil, hsplits]
    · decide
    · rw [List.foldl_append, ← ht.words]
      rfl
    · rw [List.length_append, hsize]
      rfl
  · refine ⟨blocks, ht.whole, ?_, ?_, ?_, ?_⟩
    all_goals simp only [Hasher.feed, hfull, if_false]
    · exact hsplits
    · rw [List.length_cons]
      omega
    · exact ht.words
    · rw [List.length_append, hsize]
      rfl

/-- So do any bytes. -/
theorem Took.update (ht : h.Took blocks text) (bytes : List UInt8) :
    ∃ blocks, (h.update bytes).Took blocks (text ++ bytes) := by
  induction bytes generalizing h blocks text with
  | nil => exact ⟨blocks, by rwa [List.append_nil]⟩
  | cons b bytes ih =>
    rcases ht.feed b with ⟨blocks, hb⟩
    rcases ih hb with ⟨blocks, hbytes⟩
    exact ⟨blocks, by rwa [List.append_assoc] at hbytes⟩

theorem length_padding (size : Nat) : (size + (padding size).length) % 64 = 0 := by
  have hpadding : (padding size).length = (119 - size % 64) % 64 + 9 := by
    simp [padding, bytesOf]
  rw [hpadding]
  omega

/-- With the padding every byte stands in a block, and the last state is the digest. -/
theorem Took.finish (ht : h.Took blocks text) : h.finish = sha256 text := by
  rcases ht.update (padding text.length) with ⟨all, hall⟩
  have hlength := hall.length
  have hpadded := length_padding text.length
  rw [List.length_append] at hlength
  have hnone : (h.update (padding text.length)).pending = [] := by
    apply List.eq_nil_of_length_eq_zero
    have hshort := hall.short
    omega
  have hblocks : all.flatten = text ++ padding text.length := by
    rw [← hall.splits, hnone, List.reverse_nil, List.append_nil]
  rw [Hasher.finish, sha256, ht.size, ← hblocks, cut_flatten hall.whole, hall.words]

/-- The digest of a text does not depend on how it has been taken in. -/
theorem finish_update (text : List UInt8) : (Hasher.update {} text).finish = sha256 text := by
  rcases took_nil.update text with ⟨blocks, htext⟩
  exact htext.finish

end Hasher

/-! ## Reads -/

section Reads

variable {h : Hasher} {buffer chunk : List UInt8} {chunks : List (List UInt8)} {more : List Read}

/-- Of the buffer only what the last read brings is taken in. -/
theorem takeIn_chunk (hchunk : chunk ≠ []) :
    takeIn h buffer (.ok chunk :: more) = takeIn (h.update chunk) (fill buffer chunk) more := by
  have htake : (fill buffer chunk).take chunk.length = chunk := List.take_left
  cases chunk with
  | nil => exact absurd rfl hchunk
  | cons byte bytes =>
    rw [takeIn, htake]
    exact hchunk

/-- However the reads cut a text, it is taken in as a whole. -/
theorem takeIn_chunks (hchunks : ∀ chunk ∈ chunks, chunk ≠ []) :
    takeIn h buffer (chunks.map .ok ++ more)
      = takeIn (h.update chunks.flatten) (chunks.foldl fill buffer) more := by
  induction chunks generalizing h buffer with
  | nil => rfl
  | cons chunk chunks ih =>
    have hrest : ∀ c ∈ chunks, c ≠ [] := fun c hc => hchunks c (List.mem_cons_of_mem _ hc)
    have hupdate : (h.update chunk).update chunks.flatten = h.update (chunk ++ chunks.flatten) :=
      (List.foldl_append).symm
    rw [List.map_cons, List.cons_append, takeIn_chunk (hchunks chunk List.mem_cons_self), ih hrest,
      hupdate]
    rfl

end Reads

/-- The chunks of a whole content are such reads. -/
theorem ofContent_eq (content : List UInt8) : ofContent content = .ok (hex (sha256 content)) := by
  have htaken : takeIn {} (List.replicate chunkSize 0)
      ((cut chunkSize chunkSize content).map .ok ++ []) = .ok (Hasher.update {} content) := by
    rw [takeIn_chunks (ne_nil_of_mem_cut chunkSize chunkSize content), flatten_cut, takeIn]
  rw [List.append_nil] at htaken
  rw [ofContent, ofReads, htaken, ← Hasher.finish_update]
  rfl

/-! ## Digits -/

/-- The sixteen digits, in order. -/
def digits : List Char := "0123456789abcdef".toList

theorem digitChar_mem_digits : ∀ n < 16, n.digitChar ∈ digits := by decide

theorem mem_digits_of_mem_hex (bytes : List UInt8) : ∀ c ∈ (hex bytes).toList, c ∈ digits := by
  intro c hc
  rw [hex, String.toList_ofList] at hc
  rcases List.mem_flatMap.1 hc with ⟨b, -, hb⟩
  have hbyte : b.toNat < 256 := b.toNat_lt
  have hhigh := digitChar_mem_digits (b.toNat / 16) (by omega)
  have hlow := digitChar_mem_digits (b.toNat % 16) (by omega)
  rcases List.mem_cons.1 hb with rfl | hrest
  · exact hhigh
  · rwa [List.mem_singleton.1 hrest]

theorem length_hex (bytes : List UInt8) : (hex bytes).length = 2 * bytes.length := by
  rw [hex, String.length_ofList, List.length_flatMap]
  simp only [List.length_cons, List.length_nil, List.map_const', List.sum_replicate_nat]
  omega

theorem length_sha256 (text : List UInt8) : (sha256 text).length = 32 := rfl

/-! ## Files -/

/-- The digest of what reads bring up to the end of the file is that of all their bytes: 64 digits,
wherever the reads cut the file. If a read fails there is no digest, but its fault. Hence the digest of a
file is that of its content. -/
theorem ofReads_chunks (chunks : List (List UInt8)) (hchunks : ∀ chunk ∈ chunks, chunk ≠ []) :
    (∀ later, ofReads (chunks.map .ok ++ .ok [] :: later) = .ok (hex (sha256 chunks.flatten))) ∧
    ((hex (sha256 chunks.flatten)).length = 64 ∧
      ∀ c ∈ (hex (sha256 chunks.flatten)).toList, c ∈ digits) ∧
    (∀ fault later, ofReads (chunks.map .ok ++ .error fault :: later) = .error fault) ∧
    (∀ d : Disk, ∀ path, d.digest path = (d.read path).map fun content => hex (sha256 content)) := by
  refine ⟨fun later => ?_, ⟨?_, mem_digits_of_mem_hex _⟩, fun fault later => ?_, fun d path => ?_⟩
  · rw [ofReads, takeIn_chunks hchunks, ← Hasher.finish_update]
    rfl
  · rw [length_hex, length_sha256]
  · rw [ofReads, takeIn_chunks hchunks]
    rfl
  · cases hread : d.read path with
    | error fault => exact Disk.digest_of_fault hread
    | ok content => exact (Disk.digest_of_read hread).trans (ofContent_eq content)

/-- Two reads bring the text `abc`. -/
theorem ofReads_chunks_abc :
    (∀ chunk ∈ [[97], [98, 99]], chunk ≠ ([] : List UInt8)) ∧
      ofReads [.ok [97], .ok [98, 99], .ok []]
        = .ok "ba7816bf8f01cfea414140de5dae2223b00361a396177a9cb410ff61f20015ad" := by
  have hchunks : ∀ chunk ∈ [[97], [98, 99]], chunk ≠ ([] : List UInt8) := by decide
  have hdigest : hex (sha256 [97, 98, 99])
      = "ba7816bf8f01cfea414140de5dae2223b00361a396177a9cb410ff61f20015ad" := by decide +kernel
  refine ⟨hchunks, ?_⟩
  rw [← hdigest]
  exact (ofReads_chunks _ hchunks).1 []

end ForeignModule.Digest
