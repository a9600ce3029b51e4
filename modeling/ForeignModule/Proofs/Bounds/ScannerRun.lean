import ForeignModule.Proofs.Bounds.ScannerTokens

/-!
# The tokenizer finds the tokens of a text

Round by round the tokenizer by byte offsets goes over the segments of a text, and adds the token of each
(`loop_segment`). So it ends, stops at no trap, and brings what `tokenize` says (`tokenize_eq`).
-/

namespace ForeignModule

namespace Cut

theorem go_drop (d : Dialect) (fresh : Bool) (n : Nat) (text : List Char) :
    go d fresh n text = go d fresh 0 (text.drop n) := by
  induction text generalizing n with
  | nil => rw [List.drop_nil]; rfl
  | cons c rest ih =>
    cases n with
    | zero => rfl
    | succ n => exact ih n

/-- What is not closed is behind the segments. -/
theorem text_append_tail {d : Dialect} {fresh : Bool} {skip : Nat} {text tail : List Char} {what : Unclosed}
    (h : (go d fresh skip text).unclosed? = some (what, tail)) :
    (go d fresh skip text).text ++ tail = text.drop skip := by
  induction text generalizing fresh skip with
  | nil => cases h
  | cons c rest ih =>
    cases skip with
    | succ skip => exact ih h
    | zero =>
      rw [go] at h ⊢
      cases hscan : Source.scan d fresh c rest with
      | error what' =>
        rw [hscan] at h
        cases h
        rfl
      | ok reach =>
        rw [hscan] at h
        have hrest := ih h
        simp only [text, List.flatMap_cons, List.cons_append, List.append_assoc, List.drop_zero] at hrest ⊢
        rw [hrest, List.take_append_drop]

end Cut

namespace Bounds.Scanner

open Source Token

variable {d : Dialect} {text rest : List Char} {s : Reader} {c : Char}

/-! ## Segments -/

theorem round_blank {stride : List Char} (h : At text (stride ++ rest) s.position) (hu : Stride stride rest)
    (hblank : ∀ c ∈ stride, isBlank c = true) : round d (encode text) s = pure (.inl (s.pass stride)) := by
  have hone : ∀ c more, At text (c :: more) s.position → isBlank c = true →
      round d (encode text) s = pure (.inl (s.step (encode text))) := by
    intro c more hat hc
    have hwide : ¬IsWide c := fun hw => by simp [isBlank_of_isWide hw] at hc
    simp [round, peek_cons hat hwide, hc]
  cases hu with
  | crlf => rw [hone '\r' _ h (by decide), h.step_crlf]
  | @char c _ hb =>
    have hc := hblank c List.mem_cons_self
    have hwide : ¬IsWide c := fun hw => by simp [isBlank_of_isWide hw] at hc
    rw [hone c _ h hc, h.step hwide hb]

/-- A row of blanks is gone over line end by line end. -/
theorem loop_blank (h : At text rest s.position) :
    ∃ t, Passes text rest (rest.takeWhile isBlank).length s t ∧
      loop (round d (encode text)) s = loop (round d (encode text)) t := by
  induction rest using stride_induction generalizing s with
  | nil => exact ⟨s, .zero h, rfl⟩
  | append stride more hu ih =>
    by_cases hblank : ∀ c ∈ stride, isBlank c = true
    · obtain ⟨t, hpasses, ht⟩ := ih (s := s.pass stride) (h.pass hu.between)
      refine ⟨t, ?_, (loop_next (round_blank h hu hblank)).trans ht⟩
      rw [List.takeWhile_append_of_pos hblank, List.length_append]
      exact (Passes.of_between hu.between h).trans hpasses
    · have hnone : (stride ++ more).takeWhile isBlank = [] := by
        cases hu with
        | crlf => exact absurd (by simp [isBlank]) hblank
        | char hb => exact List.takeWhile_cons_of_neg (by simpa using hblank)
      rw [hnone]
      exact ⟨s, .zero h, rfl⟩

/-- The loop goes on behind the segment that is found, with its token added. -/
theorem loop_segment {role : Role} {n : Nat} (h : At text (c :: rest) s.position)
    (hscan : scan d (!s.lineHasToken) c rest = .ok (role, n)) :
    ∃ t, Passes text (c :: rest) (n + 1) s t ∧
      loop (round d (encode text)) s = loop (round d (encode text)) (t.mark role s.position) := by
  by_cases hblank : isBlank c = true
  · rw [scan, if_pos hblank] at hscan
    cases hscan
    obtain ⟨t, hpasses, ht⟩ := loop_blank (d := d) h
    rw [List.takeWhile_cons_of_pos hblank] at hpasses
    exact ⟨t, hpasses, ht⟩
  by_cases hbyte : d = .rust ∧ c = 'b' ∧ rest.head? = some '"'
  · obtain ⟨rfl, rfl, hquote⟩ := hbyte
    obtain ⟨inner, rfl⟩ := List.head?_eq_some_iff.1 hquote
    cases hscan
    refine ⟨s.pass ['b'], .of_between (.of_not_endsLine rfl _) h, ?_⟩
    rw [loop, byteString_round h, ← loop]
    rfl
  · obtain ⟨run, hround, hgives⟩ := round_eq h (eq_false_of_ne_true hblank) hbyte
    rw [hscan] at hgives
    obtain ⟨t, hpasses, rfl⟩ := hgives
    exact ⟨t, hpasses, loop_next hround⟩

/-- At something that is not closed the loop adds an error and ends. -/
theorem loop_unclosed {what : Unclosed} (h : At text (c :: rest) s.position)
    (hscan : scan d (!s.lineHasToken) c rest = .error what) :
    ∃ t, Passes text (c :: rest) (rest.length + 1) s t ∧
      loop (round d (encode text)) s = pure (t.fail what s.position) := by
  have hblank : isBlank c = false := by
    cases hblank : isBlank c with
    | false => rfl
    | true =>
      rw [scan, if_pos hblank] at hscan
      cases hscan
  have hbyte : ¬(d = .rust ∧ c = 'b' ∧ rest.head? = some '"') := by
    rintro ⟨rfl, rfl, hquote⟩
    obtain ⟨inner, rfl⟩ := List.head?_eq_some_iff.1 hquote
    cases hscan
  obtain ⟨run, hround, hgives⟩ := round_eq h hblank hbyte
  rw [hscan] at hgives
  obtain ⟨t, hpasses, rfl⟩ := hgives
  refine ⟨t, hpasses, (loop_next hround).trans (loop_done ?_)⟩
  have hend := hpasses.at_rest
  rw [List.length_cons, List.drop_succ_cons, List.drop_length] at hend
  have hpeek : (t.fail what s.position).peek (encode text) 0 = none := peek_nil hend
  rw [round, hpeek]

/-! ## The whole text -/

/-- From `s` to `t` the tokens and the error of a cut have been added. -/
structure Adds (text : List Char) (cut : Cut) (s t : Reader) : Prop where
  tokens : t.tokens = s.tokens ++ ofSegments s.position (!s.lineHasToken) cut.segments
  errors : match cut.unclosed? with
    | none => t.errors = s.errors
    | some (what, tail) => ∃ p, At text tail p ∧
        t.errors = s.errors ++ [{ what, span := ⟨p, (encode text).length⟩ }]

/-- A segment in front is one more step. -/
theorem Adds.segment {role : Role} {n : Nat} {cut : Cut} {t u : Reader} (hpasses : Passes text (c :: rest) (n + 1) s t)
    (h : Adds text cut (t.mark role s.position) u) :
    Adds text { cut with segments := ⟨role, c :: rest.take n⟩ :: cut.segments } s u := by
  obtain ⟨rfl, -, -⟩ := hpasses
  constructor
  · rw [h.tokens]
    cases role <;> simp [ofSegments, Reader.mark, Reader.emit, Reader.pass, Segment.leavesFresh, Segment.breaksLine]
  · have herrors := h.errors
    cases role <;> exact herrors

theorem loop_round (h : At text rest s.position) :
    ∃ t, loop (round d (encode text)) s = pure t ∧ Adds text (Cut.go d (!s.lineHasToken) 0 rest) s t := by
  induction hn : rest.length using Nat.strongRecOn generalizing rest s with
  | ind _ ih =>
    subst hn
    cases rest with
    | nil =>
      refine ⟨s, loop_done ?_, ?_, ?_⟩
      · rw [round, peek_nil h]
      · exact (List.append_nil _).symm
      · rfl
    | cons c rest =>
      rw [Cut.go]
      cases hscan : scan d (!s.lineHasToken) c rest with
      | error what =>
        obtain ⟨t, hpasses, ht⟩ := loop_unclosed h hscan
        refine ⟨_, ht, ?_, s.position, h, ?_⟩
        · rw [hpasses.eq]
          exact (List.append_nil _).symm
        · have hend := hpasses.at_rest
          rw [List.drop_succ_cons, List.drop_length] at hend
          have herrors : (t.fail what s.position).errors
              = t.errors ++ [{ what, span := ⟨s.position, t.position.offset⟩ }] := rfl
          rw [herrors, hend.offset_nil, hpasses.eq, Reader.errors_pass]
      | ok reach =>
        obtain ⟨role, n⟩ := reach
        obtain ⟨t, hpasses, ht⟩ := loop_segment h hscan
        have hrest : At text (rest.drop n) (t.mark role s.position).position := by
          rw [Reader.position_mark]
          exact hpasses.at_rest
        have hlength : (rest.drop n).length < (c :: rest).length := by
          rw [List.length_drop, List.length_cons]
          omega
        obtain ⟨u, hu, hadds⟩ := ih _ hlength hrest rfl
        refine ⟨u, ht.trans hu, ?_⟩
        have hfresh : (!(t.mark role s.position).lineHasToken)
            = Segment.leavesFresh (!s.lineHasToken) ⟨role, c :: rest.take n⟩ := by
          rw [hpasses.eq]
          cases role <;> simp [Reader.mark, Reader.emit, Reader.pass, Segment.leavesFresh, Segment.breaksLine]
        rw [hfresh, ← Cut.go_drop] at hadds
        exact hadds.segment hpasses

/-- The tokenizer by byte offsets ends on every text, and brings its tokens or its error. -/
theorem tokenize_eq (d : Dialect) (source : String) : tokenize d source = pure (ForeignModule.tokenize d source) := by
  obtain ⟨t, ht, htokens, herrors⟩ := loop_round (d := d) (s := {}) (At.start source.toList)
  have hcut : Cut.go d true 0 source.toList = Cut.ofSource d source.toList := rfl
  have hbytes : Text.bytes source = encode source.toList := rfl
  simp only [Bool.not_false, List.nil_append, hcut] at htokens herrors
  rw [tokenize, hbytes, ht, pure_bind, ForeignModule.tokenize]
  dsimp only
  cases hunclosed : (Cut.ofSource d source.toList).unclosed? with
  | none =>
    rw [hunclosed] at herrors
    rw [herrors, htokens]
    rfl
  | some found =>
    obtain ⟨what, tail⟩ := found
    rw [hunclosed] at herrors
    obtain ⟨p, ⟨front, hfront, hp, -⟩, herror⟩ := herrors
    have hsame : front = (Cut.ofSource d source.toList).text := by
      have htext := Cut.text_append_tail hunclosed
      exact (List.append_cancel_right (htext.trans hfront)).symm
    rw [herror, hp, hsame]
    rw [length_encode]
    rfl

end Bounds.Scanner

end ForeignModule
