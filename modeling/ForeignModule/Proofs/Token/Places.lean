import ForeignModule.Proofs.Bounds.ScannerRun

/-!
# Lines and columns

Where a token or an error starts is told by a byte offset, and by a line and a column. `BreaksAt`
says of the bytes alone where a line has ended, whatever characters they spell, and `Located` that
line and column are those that the breaks before the offset make them.

* `Located.passStride`: one character, or one line end of two, keeps the count right;
* `located_of_at`: so it is right at every place between two characters that divides no line end;
* `tokenize_located`: every token starts at such a place, and so does what is never closed.
-/

namespace ForeignModule

open Bounds Source

/-! ## Line breaks in bytes -/

/-- A line has ended right before the offset: a line feed stands there, or a carriage return that no
line feed follows. A carriage return and its line feed end one line, behind the line feed. -/
def BreaksAt (bytes : List UInt8) (i : Nat) : Prop :=
  0 < i ∧ (bytes[i - 1]? = some 10 ∨ bytes[i - 1]? = some 13 ∧ bytes[i]? ≠ some 10)

instance (bytes : List UInt8) (i : Nat) : Decidable (BreaksAt bytes i) :=
  inferInstanceAs (Decidable (_ ∧ _))

/-- The offsets up to this one at which a line has ended, in order. -/
def breaks (bytes : List UInt8) (i : Nat) : List Nat :=
  (List.range (i + 1)).filter fun j => decide (BreaksAt bytes j)

/-- The offset at which the line starts: behind the last break, or at the start of the text. -/
def lineStart (bytes : List UInt8) (i : Nat) : Nat := (breaks bytes i).getLast?.getD 0

/-- Line and column of a position are those of its offset, both counted from one. -/
structure Located (bytes : List UInt8) (p : Position) : Prop where
  line : p.line = 1 + (breaks bytes p.offset).length
  column : p.column = 1 + (p.offset - lineStart bytes p.offset)

section Breaks

variable {bytes : List UInt8} {i k : Nat}

theorem breaks_succ (bytes : List UInt8) (i : Nat) :
    breaks bytes (i + 1) = breaks bytes i ++ if BreaksAt bytes (i + 1) then [i + 1] else [] := by
  rw [breaks, List.range_succ, List.filter_append, ← breaks]
  by_cases h : BreaksAt bytes (i + 1) <;> simp [h]

theorem lineStart_le (bytes : List UInt8) (i : Nat) : lineStart bytes i ≤ i := by
  unfold lineStart
  cases hlast : (breaks bytes i).getLast? with
  | none => exact Nat.zero_le i
  | some j =>
    have hmem : j ∈ breaks bytes i := List.mem_of_getLast? hlast
    have hlt := List.mem_range.1 (List.mem_filter.1 hmem).1
    exact Nat.lt_succ_iff.1 hlt

theorem breaks_of_break (h : BreaksAt bytes (i + 1)) :
    breaks bytes (i + 1) = breaks bytes i ++ [i + 1] := by
  rw [breaks_succ, if_pos h]

theorem breaks_of_not_break (h : ¬BreaksAt bytes (i + 1)) :
    breaks bytes (i + 1) = breaks bytes i := by
  rw [breaks_succ, if_neg h, List.append_nil]

/-- Over bytes that end no line nothing changes. -/
theorem breaks_add (h : ∀ j < k, ¬BreaksAt bytes (i + j + 1)) :
    breaks bytes (i + k) = breaks bytes i := by
  induction k with
  | zero => rfl
  | succ k ih =>
    have hbefore : breaks bytes (i + k) = breaks bytes i := by
      apply ih
      intro j hj
      exact h j (Nat.lt_succ_of_lt hj)
    have hlast := breaks_of_not_break (h k (Nat.lt_succ_self k))
    exact hlast.trans hbefore

theorem not_breaksAt (h : bytes[i]? ≠ some 10) (h' : bytes[i]? ≠ some 13) :
    ¬BreaksAt bytes (i + 1) := by
  rintro ⟨-, hfeed | ⟨hreturn, -⟩⟩
  · exact h hfeed
  · exact h' hreturn

end Breaks

/-! ## One step keeps the count -/

section Steps

variable {bytes : List UInt8} {p : Position} {c : Char} {k : Nat}
  {text rest front stride : List Char}

theorem located_start (bytes : List UInt8) : Located bytes {} := by
  have hnone : breaks bytes 0 = [] := by simp [breaks, BreaksAt]
  constructor
  · rw [hnone]
    rfl
  · rw [lineStart, hnone]
    rfl

/-- Behind a break the next line starts. -/
theorem Located.nextLine (h : Located bytes p)
    (hbreaks : breaks bytes (p.offset + k) = breaks bytes p.offset ++ [p.offset + k]) :
    Located bytes (p.nextLine k) := by
  constructor
  · show p.line + 1 = 1 + (breaks bytes (p.offset + k)).length
    rw [hbreaks, List.length_append, List.length_singleton, h.line]
    omega
  · show 1 = 1 + (p.offset + k - lineStart bytes (p.offset + k))
    have hstart : lineStart bytes (p.offset + k) = p.offset + k := by simp [lineStart, hbreaks]
    omega

/-- Without a break the line goes on. -/
theorem Located.sameLine (h : Located bytes p)
    (hbreaks : breaks bytes (p.offset + k) = breaks bytes p.offset) :
    Located bytes (p.sameLine k) := by
  constructor
  · show p.line = 1 + (breaks bytes (p.offset + k)).length
    rw [hbreaks, h.line]
  · show p.column + k = 1 + (p.offset + k - lineStart bytes (p.offset + k))
    have hstart : lineStart bytes (p.offset + k) = lineStart bytes p.offset := by
      rw [lineStart, hbreaks, ← lineStart]
    have hle := lineStart_le bytes p.offset
    have hcolumn := h.column
    omega

/-- A byte of a character that ends no line is neither of the bytes that do. -/
theorem ne_of_mem_encode (hc : endsLine c = false) {b : UInt8}
    (hb : b ∈ String.utf8EncodeChar c) : b ≠ 10 ∧ b ≠ 13 := by
  have hfeed : ¬IsWide (Char.ofUInt8 10) := by decide
  have hreturn : ¬IsWide (Char.ofUInt8 13) := by decide
  by_cases hwide : IsWide c
  · obtain ⟨first, more, hencode, -, hall⟩ := exists_encode hwide
    rw [hencode] at hb
    have hb' := hall b hb
    constructor
    · rintro rfl
      exact hfeed hb'
    · rintro rfl
      exact hreturn hb'
  · rw [encode_ascii hwide, List.mem_singleton] at hb
    have hback := ofUInt8_toUInt8 hwide
    rw [← hb] at hback
    constructor
    · rintro rfl
      rw [← hback] at hc
      exact absurd hc (by decide)
    · rintro rfl
      rw [← hback] at hc
      exact absurd hc (by decide)

/-- The next byte is a line feed only if the next character is one. -/
theorem encode_head (rest : List Char) : (encode rest)[0]? = some 10 → rest.head? = some '\n' := by
  intro h
  rw [← byteAt_eq_some_iff (by decide), byteAt, h]
  rfl

/-- A character, or a line end of two, keeps the count. -/
theorem Located.passStride (h : Located (encode text) p) (hat : At text (stride ++ rest) p)
    (hu : Stride stride rest) :
    Located (encode text) (p.after stride) := by
  have hbyte := hat.getElem?_offset
  cases hu with
  | crlf =>
    -- The line ends behind the line feed, and not between the two.
    have hreturn : (encode text)[p.offset]? = some 13 := hbyte 0
    have hfeed : (encode text)[p.offset + 1]? = some 10 := hbyte 1
    have hinside : ¬BreaksAt (encode text) (p.offset + 1) := by
      rintro ⟨-, hlast | ⟨-, hnext⟩⟩
      · rw [Nat.add_sub_cancel, hreturn] at hlast
        exact absurd hlast (by decide)
      · exact hnext hfeed
    have hbehind : BreaksAt (encode text) (p.offset + 1 + 1) := ⟨Nat.succ_pos _, .inl hfeed⟩
    have hbreaks := breaks_of_break hbehind
    rw [breaks_of_not_break hinside] at hbreaks
    exact h.nextLine hbreaks
  | @char c _ hc =>
    rw [after_one]
    by_cases hline : endsLine c = true
    · rw [if_pos hline]
      have hbreak : BreaksAt (encode text) (p.offset + 1) := by
        refine ⟨Nat.succ_pos _, ?_⟩
        simp only [endsLine, Bool.or_eq_true, beq_iff_eq] at hline
        rcases hline with rfl | rfl
        · left
          exact hbyte 0
        · -- No line feed follows, or the two would be one line end.
          right
          refine ⟨hbyte 0, ?_⟩
          intro hnext
          have hone : (encode text)[p.offset + 1]? = (encode rest)[0]? := hbyte 1
          rw [hone] at hnext
          exact hc rfl (encode_head rest hnext)
      exact h.nextLine (breaks_of_break hbreak)
    · rw [if_neg hline]
      apply h.sameLine
      apply breaks_add
      intro j hj
      have hget : (encode text)[p.offset + j]? = (String.utf8EncodeChar c)[j]? := by
        rw [hbyte j, List.singleton_append, encode_cons, List.getElem?_append_left]
        rwa [String.length_utf8EncodeChar]
      have hne : ∀ b, (encode text)[p.offset + j]? = some b → b ≠ 10 ∧ b ≠ 13 := by
        intro b hb
        rw [hget] at hb
        exact ne_of_mem_encode (eq_false_of_ne_true hline) (List.mem_of_getElem? hb)
      exact not_breaksAt (fun hb => (hne _ hb).1 rfl) (fun hb => (hne _ hb).2 rfl)

/-- What is passed at once before one text is so before a longer one, unless that divides a line
end. -/
theorem stride_append (hu : Stride stride front) (hb : Between (stride ++ front) rest) :
    Stride stride (front ++ rest) := by
  cases hu with
  | crlf => exact .crlf _
  | char hc =>
    apply Stride.char
    cases front with
    | nil => simpa using hb
    | cons a front => exact hc

/-- A whole text keeps the count, by its strides. -/
theorem Located.after (h : Located (encode text) p) (hat : At text (front ++ rest) p)
    (hb : Between front rest) :
    Located (encode text) (p.after front) := by
  induction front using stride_induction generalizing p with
  | nil => exact h
  | append stride front hu ih =>
    rw [List.append_assoc] at hat
    have hstride := stride_append hu hb
    have hnext : At text (front ++ rest) (p.after stride) :=
      At.pass (s := { position := p }) hat hstride.between
    have hbetween : Between front rest := by
      intro hlast
      apply hb
      rw [List.getLast?_append, hlast]
      rfl
    rw [after_append hu.between]
    exact ih (h.passStride hat hstride) hnext hbetween

/-- At every place that divides neither a character nor a line end, the count is right. -/
theorem located_of_at (h : At text rest p) : Located (encode text) p := by
  obtain ⟨front, rfl, rfl, hbetween⟩ := h
  exact (located_start _).after (At.start _) hbetween

end Steps

/-! ## Where segments start -/

section Segments

variable {d : Dialect} {fresh : Bool} {text rest tail : List Char} {c : Char} {p : Position}
  {role : Role} {n : Nat}
  {what : Unclosed}

/-- No segment ends inside of a line end. -/
theorem between_of_scan (h : scan d fresh c rest = .ok (role, n)) :
    Between (c :: rest.take n) (rest.drop n) := by
  have hat : At (c :: rest) (c :: rest) ({ lineHasToken := !fresh } : Reader).position := At.start _
  have hscan :
      scan d (!({ lineHasToken := !fresh } : Reader).lineHasToken) c rest = .ok (role, n) := by
    simpa using h
  obtain ⟨t, hpasses, -⟩ := Scanner.loop_segment hat hscan
  exact hpasses.between

/-- Every token of a text starts at a place. -/
theorem exists_at_of_mem (h : At text rest p) :
    ∀ t ∈ Token.ofSegments p fresh (Cut.go d fresh 0 rest).segments,
      ∃ more, At text more t.span.start := by
  -- A segment leaves a shorter text, at the place behind it.
  induction hn : rest.length using Nat.strongRecOn generalizing rest fresh p with
  | ind _ ih =>
    subst hn
    intro t ht
    cases rest with
    | nil => simp [Cut.go, Token.ofSegments] at ht
    | cons c rest =>
      cases hscan : scan d fresh c rest with
      | error what => simp [Cut.go, hscan, Token.ofSegments] at ht
      | ok reach =>
        obtain ⟨role, n⟩ := reach
        have hsplit : c :: rest = (c :: rest.take n) ++ rest.drop n := by
          rw [List.cons_append, List.take_append_drop]
        have hnext : At text (rest.drop n) (p.after (c :: rest.take n)) := by
          rw [hsplit] at h
          exact At.pass (s := { position := p }) h (between_of_scan hscan)
        have hlength : (rest.drop n).length < (c :: rest).length := by
          rw [List.length_drop, List.length_cons]
          omega
        have hrest :=
          @ih _ hlength (Segment.leavesFresh fresh ⟨role, c :: rest.take n⟩) _ _ hnext rfl
        rw [Cut.go, hscan] at ht
        simp only [Token.ofSegments, Cut.go_drop d _ n] at ht
        cases role with
        | token kind =>
          rcases List.mem_cons.1 ht with rfl | ht
          · exact ⟨_, h⟩
          · exact hrest t ht
        | blank | lineComment | blockComment | directive | bytePrefix => exact hrest t ht

/-- So does what is never closed. -/
theorem at_unclosed {source : List Char}
    (h : (Cut.ofSource d source).unclosed? = some (what, tail)) :
    At source tail (({} : Position).after (Cut.ofSource d source).text) := by
  obtain ⟨t, -, -, herrors⟩ := Scanner.loop_round (d := d) (s := {}) (At.start source)
  have hcut : Cut.go d true 0 source = Cut.ofSource d source := rfl
  simp only [Bool.not_false, hcut, h] at herrors
  obtain ⟨p, ⟨front, hfront, rfl, hbetween⟩, -⟩ := herrors
  have htext : (Cut.ofSource d source).text ++ tail = source := Cut.text_append_tail h
  have hsame : front = (Cut.ofSource d source).text :=
    List.append_cancel_right (hfront.symm.trans htext.symm)
  exact ⟨_, htext.symm, rfl, hsame ▸ hbetween⟩

end Segments

/-- The line on which a token or an error of a source text starts is one more than the number of
line breaks before it, and its column one more than the number of bytes since the last of them. -/
theorem tokenize_located (d : Dialect) (source : String) :
    match tokenize d source with
    | .ok tokens => ∀ t ∈ tokens, Located (Text.bytes source) t.span.start
    | .error e => Located (Text.bytes source) e.span.start := by
  have hbytes : Text.bytes source = encode source.toList := rfl
  rw [tokenize, hbytes]
  dsimp only
  cases hunclosed : (Cut.ofSource d source.toList).unclosed? with
  | none =>
    intro t ht
    obtain ⟨more, hat⟩ := exists_at_of_mem (At.start source.toList) t ht
    exact located_of_at hat
  | some found =>
    obtain ⟨what, tail⟩ := found
    exact located_of_at (at_unclosed hunclosed)

example : breaks (Text.bytes "a\r\nb\rc\n") 7 = [3, 5, 7] := by decide +kernel

end ForeignModule
