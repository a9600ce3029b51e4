import ForeignModule.Text.Raw
import Mathlib.Data.List.TakeWhile

/-!
# Texts in bytes and back

The bytes of a text are read as that text again (`decode?_bytes`), character by character
(`characters_encode`). The bounds of `continuation?` cost nothing here: no character has an overlong
form or is a surrogate. Nothing is replaced on the way (`decodeLossy_bytes`), so that a raw text which
is a text is shown as that (`RawText.shown_bytes`).

A byte below 0x80 stands for itself wherever it stands. A text without a zero has no zero among its
bytes (`takeWhile_bytes`), and where bytes are no text, such a byte still ends what cannot be read
(`characters_append`) and is not made up by it (`exists_of_mem_decodeLossy`).
-/

namespace ForeignModule.Text

theorem toNat_continuing (n : Nat) : (UInt8.ofNat (n % 64 + 128)).toNat = n % 64 + 128 := by
  rw [UInt8.toNat_ofNat']
  omega

theorem continues_continuing (n : Nat) : continues (UInt8.ofNat (n % 64 + 128)) = true := by
  have := toNat_continuing n
  simp only [continues, Bool.and_eq_true, decide_eq_true_eq, UInt8.le_iff_toNat_le, this]
  constructor
  · show 128 ≤ n % 64 + 128
    omega
  · show n % 64 + 128 ≤ 191
    omega

/-- A first byte with as many continuing bytes as it asks for is a character. -/
theorem decodeAt_of_continuation {b next low high : UInt8} {count : Nat} {more : List UInt8}
    (hb : ¬b < 0x80) (hc : continuation? b = some (count, low, high))
    (hlow : low ≤ next) (hhigh : next ≤ high) (hcount : count - 1 = more.length)
    (hmore : ∀ m ∈ more, continues m = true) (rest : List UInt8) :
    decodeAt b (next :: more ++ rest) = (some (scalar b (next :: more)), count) := by
  have htake : ((more ++ rest).take (count - 1)).takeWhile continues = more := by
    have hall : (more ++ []).takeWhile continues = more ++ [].takeWhile continues :=
      List.takeWhile_append_of_pos hmore
    rw [List.append_nil, List.takeWhile_nil, List.append_nil] at hall
    rw [hcount, List.take_left, hall]
  simp only [decodeAt, if_neg hb, hc, List.cons_append, hlow, hhigh, and_self, if_true, htake]
  rw [if_pos hcount.symm]

theorem characters_skip (skipped rest : List UInt8) :
    characters skipped.length (skipped ++ rest) = characters 0 rest := by
  induction skipped with
  | nil => rfl
  | cons b more ih => exact ih

theorem not_ascii {b : UInt8} (h : 0x80 ≤ b.toNat) : ¬b < 0x80 := by
  rw [UInt8.lt_iff_toNat_lt]
  exact Nat.not_lt.2 h

/-- The bounds of a byte, in numbers. -/
theorem continuation?_eq (b : UInt8) : continuation? b =
    if 0xc2 ≤ b.toNat ∧ b.toNat ≤ 0xdf then some (1, 0x80, 0xbf)
    else if b.toNat = 0xe0 then some (2, 0xa0, 0xbf)
    else if b.toNat = 0xed then some (2, 0x80, 0x9f)
    else if 0xe1 ≤ b.toNat ∧ b.toNat ≤ 0xef then some (2, 0x80, 0xbf)
    else if b.toNat = 0xf0 then some (3, 0x90, 0xbf)
    else if b.toNat = 0xf4 then some (3, 0x80, 0x8f)
    else if 0xf1 ≤ b.toNat ∧ b.toNat ≤ 0xf3 then some (3, 0x80, 0xbf)
    else none := by
  simp only [continuation?, UInt8.le_iff_toNat_le, ← UInt8.toNat_inj]
  rfl

/-- The byte behind the first one lies within the bounds that the first one sets. -/
def Admits (first next : UInt8) (count : Nat) : Prop :=
  ∃ low high, continuation? first = some (count, low, high) ∧ low.toNat ≤ next.toNat ∧
    next.toNat ≤ high.toNat

/-- A first byte and those that continue it are read as one character. -/
theorem characters_of_admits {first next : UInt8} {more : List UInt8} {c : Char}
    (hfirst : 0x80 ≤ first.toNat) (h : Admits first next (more.length + 1))
    (hmore : ∀ m ∈ more, continues m = true) (hscalar : scalar first (next :: more) = c)
    (rest : List UInt8) :
    characters 0 (first :: next :: more ++ rest) = some c :: characters 0 rest := by
  obtain ⟨low, high, hc, hlow, hhigh⟩ := h
  have hdecode := decodeAt_of_continuation (not_ascii hfirst) hc (UInt8.le_iff_toNat_le.2 hlow)
    (UInt8.le_iff_toNat_le.2 hhigh) rfl hmore rest
  have hskip := characters_skip (next :: more) rest
  rw [List.cons_append, characters]
  simp only [hdecode, hscalar]
  exact congrArg _ hskip

section Encoded

variable {v : Nat} {first next : UInt8}

theorem admits_two (hv : 0x7f < v) (hv' : v ≤ 0x7ff) (hfirst : first.toNat = v / 64 % 32 + 0xc0)
    (hnext : next.toNat = v % 64 + 0x80) : Admits first next 1 := by
  refine ⟨0x80, 0xbf, ?_, ?_, ?_⟩
  · rw [continuation?_eq, if_pos (by omega)]
  · show 128 ≤ next.toNat
    omega
  · show next.toNat ≤ 191
    omega

theorem admits_three (hv : 0x7ff < v) (hv' : v ≤ 0xffff) (hvalid : v < 0xd800 ∨ 0xdfff < v)
    (hfirst : first.toNat = v / 4096 % 16 + 0xe0) (hnext : next.toNat = v / 64 % 64 + 0x80) :
    Admits first next 2 := by
  rw [Admits, continuation?_eq, if_neg (by omega)]
  by_cases hshort : v < 0x1000
  · exact ⟨0xa0, 0xbf, by rw [if_pos (by omega)], by show 160 ≤ _; omega, by show _ ≤ 191; omega⟩
  · rw [if_neg (by omega)]
    by_cases hsurrogate : 0xd000 ≤ v ∧ v < 0xe000
    · exact ⟨0x80, 0x9f, by rw [if_pos (by omega)], by show 128 ≤ _; omega,
        by show _ ≤ 159; omega⟩
    · exact ⟨0x80, 0xbf, by rw [if_neg (by omega), if_pos (by omega)], by show 128 ≤ _; omega,
        by show _ ≤ 191; omega⟩

theorem admits_four (hv : 0xffff < v) (hv' : v < 0x110000)
    (hfirst : first.toNat = v / 262144 % 8 + 0xf0) (hnext : next.toNat = v / 4096 % 64 + 0x80) :
    Admits first next 3 := by
  rw [Admits, continuation?_eq, if_neg (by omega), if_neg (by omega), if_neg (by omega),
    if_neg (by omega)]
  by_cases hshort : v < 0x40000
  · exact ⟨0x90, 0xbf, by rw [if_pos (by omega)], by show 144 ≤ _; omega, by show _ ≤ 191; omega⟩
  · rw [if_neg (by omega)]
    by_cases hlast : 0x100000 ≤ v
    · exact ⟨0x80, 0x8f, by rw [if_pos (by omega)], by show 128 ≤ _; omega,
        by show _ ≤ 143; omega⟩
    · exact ⟨0x80, 0xbf, by rw [if_neg (by omega), if_pos (by omega)], by show 128 ≤ _; omega,
        by show _ ≤ 191; omega⟩

end Encoded

/-- What is read from the bytes of a character is that character. -/
theorem characters_encode (c : Char) (rest : List UInt8) :
    characters 0 (String.utf8EncodeChar c ++ rest) = some c :: characters 0 rest := by
  have hvalid : c.val.toNat < 0xd800 ∨ 0xdfff < c.val.toNat ∧ c.val.toNat < 0x110000 := c.valid
  have hof : Char.ofNat c.val.toNat = c := Char.ofNat_toNat c
  have hbyte : ∀ n, n < 256 → (UInt8.ofNat n).toNat = n := fun n hn => by
    rw [UInt8.toNat_ofNat']
    omega
  simp only [String.utf8EncodeChar]
  generalize c.val.toNat = v at hof hvalid ⊢
  by_cases hone : v ≤ 0x7f
  · have hlt : UInt8.ofNat v < 0x80 := by
      rw [UInt8.lt_iff_toNat_lt, hbyte v (by omega)]
      show v < 128
      omega
    rw [if_pos hone]
    simp [characters, decodeAt, hlt, hbyte v (by omega), hof]
  rw [if_neg hone]
  by_cases htwo : v ≤ 0x7ff
  · rw [if_pos htwo]
    have hfirst := hbyte (v / 64 % 32 + 192) (by omega)
    have hnext := toNat_continuing v
    refine characters_of_admits (by omega) (admits_two (by omega) htwo hfirst hnext) (by simp) ?_
      rest
    rw [← hof, scalar, hfirst]
    refine congrArg Char.ofNat ?_
    show (v / 64 % 32 + 192) % 32 * 64 + (UInt8.ofNat (v % 64 + 128)).toNat % 64 = v
    omega
  rw [if_neg htwo]
  by_cases hthree : v ≤ 0xffff
  · rw [if_pos hthree]
    have hfirst := hbyte (v / 4096 % 16 + 224) (by omega)
    have hnext := toNat_continuing (v / 64)
    have hlast := toNat_continuing v
    refine characters_of_admits (by omega)
      (admits_three (by omega) hthree (by omega) hfirst hnext)
      (List.forall_mem_singleton.2 (continues_continuing v)) ?_ rest
    rw [← hof, scalar, hfirst]
    refine congrArg Char.ofNat ?_
    show ((v / 4096 % 16 + 224) % 16 * 64 + (UInt8.ofNat (v / 64 % 64 + 128)).toNat % 64) * 64
      + (UInt8.ofNat (v % 64 + 128)).toNat % 64 = v
    omega
  · rw [if_neg hthree]
    have hfirst := hbyte (v / 262144 % 8 + 240) (by omega)
    have hnext := toNat_continuing (v / 4096)
    have hthird := toNat_continuing (v / 64)
    have hlast := toNat_continuing v
    refine characters_of_admits (by omega)
      (admits_four (by omega) (by omega) hfirst hnext)
      (List.forall_mem_cons.2 ⟨continues_continuing (v / 64),
        List.forall_mem_singleton.2 (continues_continuing v)⟩) ?_ rest
    rw [← hof, scalar, hfirst]
    refine congrArg Char.ofNat ?_
    show (((v / 262144 % 8 + 240) % 8 * 64 + (UInt8.ofNat (v / 4096 % 64 + 128)).toNat % 64) * 64
      + (UInt8.ofNat (v / 64 % 64 + 128)).toNat % 64) * 64
      + (UInt8.ofNat (v % 64 + 128)).toNat % 64 = v
    omega

theorem characters_bytes (text : List Char) :
    characters 0 (text.flatMap String.utf8EncodeChar) = text.map some := by
  induction text with
  | nil => rfl
  | cons c rest ih => rw [List.flatMap_cons, characters_encode, ih, List.map_cons]

theorem mapM_id_eq_some_iff {cs : List (Option Char)} {text : List Char} :
    cs.mapM id = some text ↔ cs = text.map some := by
  induction cs generalizing text with
  | nil => cases text <;> simp
  | cons c? cs ih =>
    cases text with
    | nil => cases c? <;> cases hcs : cs.mapM id <;> simp [hcs]
    | cons c text =>
      rw [List.map_cons, List.cons.injEq, ← ih]
      cases c? <;> cases hcs : cs.mapM id <;> simp [hcs]

/-- Bytes are a text if no stretch of them is none. -/
theorem decode?_eq_some_iff {raw : List UInt8} {text : String} :
    decode? raw = some text ↔ characters 0 raw = text.toList.map some := by
  rw [← mapM_id_eq_some_iff, decode?, Option.map_eq_some_iff]
  constructor
  · rintro ⟨cs, hcs, rfl⟩
    rw [hcs, String.toList_ofList]
  · exact fun h => ⟨text.toList, h, String.ofList_toList⟩

/-- The bytes of a text are read as that text. -/
theorem decode?_bytes (text : String) : decode? (bytes text) = some text :=
  decode?_eq_some_iff.2 (characters_bytes text.toList)

/-- In bytes that are a text nothing is replaced. -/
theorem decodeLossy_of_decode? {raw : List UInt8} {text : String} (h : decode? raw = some text) :
    decodeLossy raw = text := by
  have hkept : (text.toList.map some).map (·.getD replacement) = text.toList := by
    rw [List.map_map]
    exact List.map_id _
  rw [decodeLossy, decode?_eq_some_iff.1 h, hkept, String.ofList_toList]

theorem decodeLossy_bytes (text : String) : decodeLossy (bytes text) = text :=
  decodeLossy_of_decode? (decode?_bytes text)

/-! ## What the bytes of a text hold -/

/-- A byte of one character alone is that character. -/
theorem ofNat_of_mem_utf8EncodeChar {c : Char} {b : UInt8} (hb : b ∈ String.utf8EncodeChar c)
    (hascii : b.toNat < 0x80) : Char.ofNat b.toNat = c := by
  have hhigh : ∀ n, 128 ≤ n → n < 256 → b ≠ UInt8.ofNat n := by
    rintro n hn hn' rfl
    rw [UInt8.toNat_ofNat'] at hascii
    omega
  simp only [String.utf8EncodeChar] at hb
  have hc : c.val.toNat = c.toNat := rfl
  rw [hc] at hb
  split at hb
  · -- One byte holds the character whole.
    rw [List.mem_singleton.1 hb, UInt8.toNat_ofNat', Nat.mod_eq_of_lt (by omega), Char.ofNat_toNat]
  · -- Of more than one byte, each has its highest bit set.
    generalize c.toNat = v at hb
    split at hb
    · simp only [List.mem_cons, List.not_mem_nil, or_false] at hb
      rcases hb with hb | hb <;> exact absurd hb (hhigh _ (by omega) (by omega))
    · split at hb <;> simp only [List.mem_cons, List.not_mem_nil, or_false] at hb
      · rcases hb with hb | hb | hb <;> exact absurd hb (hhigh _ (by omega) (by omega))
      · rcases hb with hb | hb | hb | hb <;> exact absurd hb (hhigh _ (by omega) (by omega))

/-- What is one byte stands in a text where that byte does. -/
theorem mem_of_mem_bytes {text : String} {b : UInt8} (hb : b ∈ bytes text)
    (hascii : b.toNat < 0x80) : Char.ofNat b.toNat ∈ text.toList := by
  obtain ⟨c, hc, hbc⟩ := List.mem_flatMap.1 hb
  rwa [ofNat_of_mem_utf8EncodeChar hbc hascii]

/-- The bytes of a text without a zero are read up to their end. -/
theorem takeWhile_bytes {text : String} (clean : '\x00' ∉ text.toList) :
    (bytes text).takeWhile (· != 0) = bytes text := by
  rw [List.takeWhile_eq_self_iff]
  intro b hb
  have hne : b ≠ 0 := by
    rintro rfl
    exact clean (mem_of_mem_bytes hb (by decide))
  simpa using hne

theorem bytes_append (text more : String) : bytes (text ++ more) = bytes text ++ bytes more := by
  simp [bytes]

/-- Texts with the same bytes are the same. -/
theorem bytes_inj {text other : String} (h : bytes text = bytes other) : text = other := by
  have hdecoded := congrArg decode? h
  rw [decode?_bytes, decode?_bytes] at hdecoded
  exact Option.some.inj hdecoded

/-! ## What stretches that are no text leave alone -/

theorem takeWhile_take_append {l : List UInt8} {b : UInt8} (hb : continues b = false) (n : Nat)
    (rest : List UInt8) :
    ((l ++ b :: rest).take n).takeWhile continues = (l.take n).takeWhile continues := by
  induction l generalizing n with
  | nil =>
    cases n with
    | zero => rfl
    | succ n => simp [hb]
  | cons c l ih =>
    cases n with
    | zero => rfl
    | succ n => simp only [List.cons_append, List.take_succ_cons, List.takeWhile_cons, ih]

/-- The bytes that may stand behind the first one of a character continue it. -/
theorem continues_of_continuation? {first low high next : UInt8} {count : Nat}
    (h : continuation? first = some (count, low, high)) (hlow : low ≤ next) (hhigh : next ≤ high) :
    continues next = true := by
  rw [continuation?_eq] at h
  have hbounds : 0x80 ≤ low.toNat ∧ high.toNat ≤ 0xbf := by
    split_ifs at h <;> cases h <;> decide
  rw [UInt8.le_iff_toNat_le] at hlow hhigh
  simp only [continues, Bool.and_eq_true, decide_eq_true_eq, UInt8.le_iff_toNat_le]
  exact ⟨hbounds.1.trans hlow, hhigh.trans hbounds.2⟩

/-- What a byte starts ends before a byte that continues nothing. -/
theorem decodeAt_append {b next : UInt8} (hnext : continues next = false) (before rest : List UInt8) :
    decodeAt b (before ++ next :: rest) = decodeAt b before := by
  unfold decodeAt
  split
  · rfl
  · cases hc : continuation? b with
    | none => cases before <;> rfl
    | some bounds =>
      obtain ⟨count, low, high⟩ := bounds
      cases before with
      | nil =>
        have hout : ¬(low ≤ next ∧ next ≤ high) := by
          rintro ⟨hlow, hhigh⟩
          rw [continues_of_continuation? hc hlow hhigh] at hnext
          cases hnext
        simp only [List.nil_append, if_neg hout]
      | cons first after => simp only [List.cons_append, takeWhile_take_append hnext]

/-- What a byte starts does not reach beyond the end. -/
theorem decodeAt_le (b : UInt8) (rest : List UInt8) : (decodeAt b rest).2 ≤ rest.length := by
  unfold decodeAt
  split
  · exact Nat.zero_le _
  · split
    · rename_i count low high next after _
      have hmore : ((after.take (count - 1)).takeWhile continues).length ≤ after.length :=
        (List.takeWhile_sublist _).length_le.trans (List.length_take_le' _ _)
      split
      · dsimp only
        split
        · rename_i hall
          rw [hall] at hmore
          simp only [List.length_cons]
          omega
        · simp only [List.length_cons]
          omega
      · exact Nat.zero_le _
    · exact Nat.zero_le _

/-- A byte of one character is that character, whatever stands before it. -/
theorem characters_append {b : UInt8} (hb : b < 0x80) {before : List UInt8} {skip : Nat}
    (hskip : skip ≤ before.length) (rest : List UInt8) :
    characters skip (before ++ b :: rest) =
      characters skip before ++ some (Char.ofNat b.toNat) :: characters 0 rest := by
  have hnext : continues b = false := by
    rw [UInt8.lt_iff_toNat_lt] at hb
    simp only [continues, Bool.and_eq_false_iff, decide_eq_false_iff_not, UInt8.le_iff_toNat_le]
    exact .inl (Nat.not_le.2 hb)
  induction before generalizing skip with
  | nil =>
    obtain rfl := Nat.le_zero.1 hskip
    have hdecode : decodeAt b rest = (some (Char.ofNat b.toNat), 0) := by
      unfold decodeAt
      rw [if_pos hb]
    show (decodeAt b rest).1 :: characters (decodeAt b rest).2 rest = _
    rw [hdecode]
    rfl
  | cons first before ih =>
    cases skip with
    | succ skip => exact ih (Nat.le_of_succ_le_succ hskip)
    | zero =>
      rw [List.cons_append, characters, characters, decodeAt_append hnext]
      dsimp only
      rw [ih (decodeAt_le first before), List.cons_append]

theorem le_foldl (value : Nat) (more : List UInt8) :
    value ≤ more.foldl (fun value b => value * 64 + b.toNat % 64) value := by
  induction more generalizing value with
  | nil => exact Nat.le_refl value
  | cons b more ih =>
    have hstep : value ≤ value * 64 + b.toNat % 64 := by omega
    exact hstep.trans (ih _)

/-- No character of more than one byte is one of those that have one byte. -/
theorem le_value {first low high next : UInt8} {count : Nat} {more : List UInt8}
    (h : continuation? first = some (count, low, high)) (hlow : low ≤ next) (hhigh : next ≤ high)
    (hmore : more.length = count - 1) :
    0x80 ≤ (next :: more).foldl (fun value b => value * 64 + b.toNat % 64)
      (first.toNat % Nat.pow 2 (6 - (next :: more).length)) := by
  rw [continuation?_eq] at h
  rw [UInt8.le_iff_toNat_le] at hlow hhigh
  rw [List.length_cons, hmore, List.foldl_cons]
  cases more with
  | nil =>
    -- One more byte: the first one counts for more than one bit.
    have hone : 2 ≤ first.toNat % 32 ∧ count = 1 := by
      split_ifs at h <;> cases h <;> simp at hmore ⊢
      omega
    obtain ⟨hfirst, rfl⟩ := hone
    show 128 ≤ first.toNat % 32 * 64 + next.toNat % 64
    omega
  | cons b more =>
    -- The first two bytes count for more than one bit, and there is a third one.
    have htwo : 2 ≤ first.toNat % Nat.pow 2 (6 - (count - 1 + 1)) * 64 + next.toNat % 64 := by
      split_ifs at h <;> cases h <;> simp at hmore hlow hhigh ⊢ <;> omega
    have hthree : 128 ≤ (first.toNat % Nat.pow 2 (6 - (count - 1 + 1)) * 64 + next.toNat % 64) * 64
        + b.toNat % 64 := by omega
    exact hthree.trans (le_foldl _ more)


theorem decodeLossy_append {b : UInt8} (hb : b < 0x80) (before rest : List UInt8) :
    decodeLossy (before ++ b :: rest) =
      decodeLossy before ++ .singleton (Char.ofNat b.toNat) ++ decodeLossy rest := by
  rw [decodeLossy, characters_append hb (Nat.zero_le _), List.map_append, List.map_cons,
    Option.getD_some, String.ofList_append, String.ofList_cons, String.append_assoc]
  rfl

theorem toNat_ofNat (n : Nat) : (Char.ofNat n).toNat = n ∨ Char.ofNat n = '\x00' := by
  by_cases h : n.isValidChar
  · have hvalid : Char.ofNat n = Char.ofNatAux n h := dif_pos h
    exact .inl (by rw [hvalid]; rfl)
  · exact .inr (dif_neg h)

/-- No character of more than one byte is one of those that have one byte. -/
theorem toNat_of_decodeAt {b : UInt8} {rest : List UInt8} {c : Char}
    (h : (decodeAt b rest).1 = some c) (hascii : c.toNat < 0x80) (hc : c ≠ '\x00') :
    b.toNat = c.toNat := by
  unfold decodeAt at h
  split at h
  · obtain rfl := Option.some.inj h
    exact ((toNat_ofNat b.toNat).resolve_right hc).symm
  · split at h
    · rename_i hbounds
      split at h
      · rename_i hnext
        dsimp only at h
        split at h
        · rename_i hmore
          obtain rfl := Option.some.inj h
          have hle := le_value hbounds hnext.1 hnext.2 hmore
          rw [← (toNat_ofNat _).resolve_right hc] at hle
          exact absurd hascii (Nat.not_lt.2 hle)
        · cases h
      · cases h
    · cases h

theorem exists_of_mem_characters {raw : List UInt8} {skip : Nat} {c? : Option Char}
    (h : c? ∈ characters skip raw) : ∃ b ∈ raw, ∃ rest, (decodeAt b rest).1 = c? := by
  induction raw generalizing skip with
  | nil => cases h
  | cons b rest ih =>
    have hbehind : ∀ skip, c? ∈ characters skip rest →
        ∃ b' ∈ b :: rest, ∃ rest', (decodeAt b' rest').1 = c? := by
      intro skip h
      obtain ⟨b', hb', hdecode⟩ := ih h
      exact ⟨b', List.mem_cons_of_mem _ hb', hdecode⟩
    cases skip with
    | succ skip => exact hbehind skip h
    | zero =>
      rcases List.mem_cons.1 h with rfl | h
      · exact ⟨b, List.mem_cons_self, rest, rfl⟩
      · exact hbehind _ h

/-- A character of one byte that is read stands for that byte. -/
theorem exists_of_mem_decodeLossy {raw : List UInt8} {c : Char} (h : c ∈ (decodeLossy raw).toList)
    (hascii : c.toNat < 0x80) (hc : c ≠ '\x00') : ∃ b ∈ raw, b.toNat = c.toNat := by
  rw [decodeLossy, String.toList_ofList, List.mem_map] at h
  obtain ⟨c?, hmem, hget⟩ := h
  obtain ⟨b, hb, rest, hdecode⟩ := exists_of_mem_characters hmem
  cases c? with
  | none =>
    rw [← hget] at hascii
    exact absurd hascii (by decide)
  | some c' =>
    obtain rfl : c' = c := hget
    exact ⟨b, hb, toNat_of_decodeAt hdecode hascii hc⟩

end ForeignModule.Text

namespace ForeignModule.RawText

/-- A text is shown as itself. -/
@[simp] theorem shown_bytes (text : String) : shown (Text.bytes text) = text :=
  Text.decodeLossy_bytes text

@[simp] theorem text?_bytes (text : String) : text? (Text.bytes text) = some text :=
  Text.decode?_bytes text

/-- Texts go over one by one, and none is lost. -/
theorem ofTexts_inj {texts others : List String} (h : ofTexts texts = ofTexts others) :
    texts = others :=
  (List.map_inj_right fun _ _ => Text.bytes_inj).1 h

theorem shown_of_text? {raw : RawText} {text : String} (h : raw.text? = some text) :
    raw.shown = text :=
  Text.decodeLossy_of_decode? h

/-- A byte of one character splits what is shown, whatever stands before it. -/
theorem shown_append {b : UInt8} (hb : b < 0x80) (before rest : RawText) :
    shown (before ++ b :: rest) = before.shown ++ .singleton (Char.ofNat b.toNat) ++ rest.shown :=
  Text.decodeLossy_append hb before rest

/-- Two names of C sources that are no texts. They are shown alike. -/
def noText : RawText := [0xff, 0x2e, 0x63]

def noTextEither : RawText := [0xfe, 0x2e, 0x63]

end ForeignModule.RawText
