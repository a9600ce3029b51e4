import ForeignModule.Proofs.Source.Boundary
import ForeignModule.Proofs.Token.Lossless
import ForeignModule.Proofs.Token.Places

/-!
# Which tokens start their line

A token is marked when it is the first on the line where it starts, and also when a line ends inside
of it, whatever stands before it. `LineFree` says of the bytes alone that no token reaches into a
line, and `Token.GoesOn` that a token goes on to a further line.

* `Tracks` is what is known between two segments: whether the line is still free;
* `Tracks.skip` and `Tracks.token` carry it over a segment;
* `startsLine_iff` says of every token of every text when it is marked;
* `startsLine_not_first`: a token that goes on to a further line is marked behind another one.
-/

namespace ForeignModule

open Bounds Source Token

/-! ## Lines and tokens -/

/-- No token of these reaches into the line on which the place lies. -/
def LineFree (bytes : List UInt8) (tokens : List Token) (p : Position) : Prop :=
  ∀ t ∈ tokens, t.span.stop ≤ lineStart bytes p.offset

instance (bytes : List UInt8) (tokens : List Token) (p : Position) :
    Decidable (LineFree bytes tokens p) :=
  inferInstanceAs (Decidable (∀ t ∈ tokens, _))

/-- The token ends on a later line than the one on which it starts: that line starts inside of it. -/
def Token.GoesOn (t : Token) (bytes : List UInt8) : Prop :=
  t.span.start.offset < lineStart bytes t.span.stop

instance (t : Token) (bytes : List UInt8) : Decidable (t.GoesOn bytes) :=
  inferInstanceAs (Decidable (_ < _))

/-! ## Breaks from one place to another -/

section Breaks

variable {bytes : List UInt8} {p q : Position} {i k : Nat}

/-- Further on there are the same breaks, and perhaps more behind the place. -/
theorem exists_breaks_add (bytes : List UInt8) (i k : Nat) :
    ∃ more, breaks bytes (i + k) = breaks bytes i ++ more ∧ ∀ j ∈ more, i < j := by
  induction k with
  | zero => exact ⟨[], by simp⟩
  | succ k ih =>
    obtain ⟨more, hmore, hbehind⟩ := ih
    refine ⟨more ++ if BreaksAt bytes (i + k + 1) then [i + k + 1] else [], ?_, ?_⟩
    · rw [← Nat.add_assoc, breaks_succ, hmore, List.append_assoc]
    · intro j hj
      rcases List.mem_append.1 hj with hj | hj
      · exact hbehind j hj
      · split at hj
        · rw [List.mem_singleton.1 hj]
          omega
        · cases hj

/-- Two places on one line have one start of the line. -/
theorem Located.lineStart_eq (hp : Located bytes p) (hq : Located bytes q)
    (hle : p.offset ≤ q.offset) (hline : q.line = p.line) :
    lineStart bytes q.offset = lineStart bytes p.offset := by
  obtain ⟨k, hk⟩ := Nat.exists_eq_add_of_le hle
  obtain ⟨more, hmore, -⟩ := exists_breaks_add bytes p.offset k
  rw [← hk] at hmore
  have hp' := hp.line
  have hq' := hq.line
  rw [hmore, List.length_append] at hq'
  have hnone : more = [] := List.length_eq_zero_iff.1 (by omega)
  rw [lineStart, hmore, hnone, List.append_nil, ← lineStart]

/-- A later line starts behind the place. -/
theorem Located.lt_lineStart (hp : Located bytes p) (hq : Located bytes q)
    (hle : p.offset ≤ q.offset) (hline : p.line < q.line) :
    p.offset < lineStart bytes q.offset := by
  obtain ⟨k, hk⟩ := Nat.exists_eq_add_of_le hle
  obtain ⟨more, hmore, hbehind⟩ := exists_breaks_add bytes p.offset k
  rw [← hk] at hmore
  have hp' := hp.line
  have hq' := hq.line
  rw [hmore, List.length_append] at hq'
  have hsome : more ≠ [] := by
    rintro rfl
    rw [List.length_nil] at hq'
    omega
  have hlast : lineStart bytes q.offset = more.getLast hsome := by
    rw [lineStart, hmore, List.getLast?_append, List.getLast?_eq_some_getLast hsome]
    rfl
  rw [hlast]
  exact hbehind _ (List.getLast_mem hsome)

end Breaks

/-! ## Lines and columns behind a text -/

section After

variable {p : Position} {word : List Char} {c : Char}

theorem le_line_after (p : Position) (word : List Char) : p.line ≤ (p.after word).line := by
  induction word using stride_induction generalizing p with
  | nil => exact Nat.le_refl _
  | append stride rest hu ih =>
    rw [after_append hu.between]
    have hstride : p.line ≤ (p.after stride).line := by
      cases hu with
      | crlf => exact Nat.le_succ p.line
      | char hc =>
        rw [after_one]
        split
        · exact Nat.le_succ p.line
        · exact Nat.le_refl p.line
    exact Nat.le_trans hstride (ih _)

/-- Without line ends the line goes on. -/
theorem line_after_of_not_any (h : word.any endsLine = false) : (p.after word).line = p.line := by
  induction word generalizing p with
  | nil => rfl
  | cons c rest ih =>
    rw [List.any_cons, Bool.or_eq_false_iff] at h
    obtain ⟨hc, hrest⟩ := h
    rw [after_cons (.of_not_endsLine hc rest), ih hrest, after_one, hc]
    rfl

/-- A line end begins a further line. -/
theorem lt_line_after (h : word.any endsLine = true) : p.line < (p.after word).line := by
  induction word using stride_induction generalizing p with
  | nil => cases h
  | append stride rest hu ih =>
    rw [after_append hu.between]
    cases hu with
    | crlf => exact Nat.lt_of_lt_of_le (Nat.lt_succ_self p.line) (le_line_after (p.nextLine 2) rest)
    | @char c _ hc =>
      rw [after_one]
      by_cases hline : endsLine c = true
      · rw [if_pos hline]
        exact Nat.lt_of_lt_of_le (Nat.lt_succ_self p.line) (le_line_after (p.nextLine 1) rest)
      · rw [if_neg hline]
        have hmore : rest.any endsLine = true := by simpa [hline] using h
        exact ih (p := p.sameLine c.utf8Size) hmore

theorem one_le_column_after (h : 1 ≤ p.column) : 1 ≤ (p.after word).column := by
  induction word using stride_induction generalizing p with
  | nil => exact h
  | append stride rest hu ih =>
    rw [after_append hu.between]
    apply ih
    cases hu with
    | crlf => exact Nat.le_refl 1
    | @char c _ hc =>
      rw [after_one]
      split
      · exact Nat.le_refl 1
      · exact Nat.le_trans h (Nat.le_add_right p.column c.utf8Size)

/-- Behind a character that ends no line, the line does not start. -/
theorem one_lt_column_after (h : 1 ≤ p.column) (hlast : word.getLast? = some c)
    (hc : endsLine c = false) : 1 < (p.after word).column := by
  obtain ⟨front, rfl⟩ := List.getLast?_eq_some_iff.1 hlast
  have hbetween : Between front [c] := by
    intro _ hhead
    obtain rfl := Option.some.inj hhead
    cases hc
  rw [after_append hbetween, after_one, hc]
  have hfront : 1 ≤ (p.after front).column := one_le_column_after h
  have hsize := c.utf8Size_pos
  show 1 < (p.after front).column + c.utf8Size
  omega

end After

/-! ## What a token ends in -/

section Spellings

variable {d : Dialect} {delimited : Delimited} {opening content closing word rest : List Char}
  {Content : List Char → Prop} {kind : Token.Kind} {c : Char} {fresh : Bool} {n : Nat}

theorem isBlank_of_endsLine (h : endsLine c = true) : isBlank c = true := by
  simp only [endsLine, Bool.or_eq_true, beq_iff_eq] at h
  rcases h with rfl | rfl
  · decide
  · decide

/-- What closes a literal ends no line. -/
theorem Source.Form.endsLine_closing (form : Form d delimited opening Content closing) :
    ∃ c, closing.getLast? = some c ∧ endsLine c = false := by
  cases form with
  | string | triple | name | character | comment => exact ⟨_, rfl, by decide⟩
  | raw _ hashes =>
    cases hashes with
    | zero => exact ⟨_, rfl, by decide⟩
    | succ hashes =>
      refine ⟨'#', ?_, by decide⟩
      rw [List.replicate_succ', ← List.cons_append, List.getLast?_concat]

theorem Source.Form.endsLine_getLast? (form : Form d delimited opening Content closing)
    (hlast : (opening ++ content ++ closing).getLast? = some c) : endsLine c = false := by
  obtain ⟨c', hclosing, hc'⟩ := form.endsLine_closing
  rw [List.getLast?_append, hclosing] at hlast
  obtain rfl := Option.some.inj hlast
  exact hc'

theorem endsLine_of_isWord (h : IsWord word) (hlast : word.getLast? = some c) :
    endsLine c = false := by
  obtain ⟨first, rest, rfl, hfirst, hall⟩ := h
  rcases List.mem_cons.1 (List.mem_of_getLast? hlast) with rfl | hmem
  · exact endsLine_of_isWordPart (isWordPart_of_isWordStart hfirst)
  · exact endsLine_of_isWordPart (hall c hmem)

/-- A token ends in no line end if it does not start with one. -/
theorem Source.Spelling.endsLine_getLast? (h : Spelling d kind word)
    (hfirst : ∀ a ∈ word.head?, endsLine a = false) (hlast : word.getLast? = some c) :
    endsLine c = false := by
  cases h with
  | word h => exact endsLine_of_isWord h hlast
  | name form _ => exact form.endsLine_getLast? hlast
  | string form _ => exact form.endsLine_getLast? hlast
  | character form _ => exact form.endsLine_getLast? hlast
  | number h =>
    obtain ⟨-, hall⟩ := h
    rw [String.toList_ofList] at hall
    rcases hall c (List.mem_of_getLast? hlast) with hpart | rfl | rfl
    · exact endsLine_of_isWordPart hpart
    · decide
    · decide
  | @lifetime name h =>
    obtain ⟨first, rest, rfl, -⟩ := id h
    rw [List.getLast?_cons_cons] at hlast
    exact endsLine_of_isWord h hlast
  | sign hsign =>
    cases kind with
    | identifier | number | string | character | lifetime => exact absurd hsign id
    | punctuation a =>
      -- It is one character, the first and the last one.
      have htext : (Token.Kind.punctuation a).text.toList = [a] := by simp [Token.Kind.text]
      rw [htext] at hfirst hlast
      obtain rfl := Option.some.inj hlast
      exact hfirst a rfl
    | opening bracket | closing bracket =>
      cases bracket <;> (obtain rfl := Option.some.inj hlast; decide)
    | _ => obtain rfl := Option.some.inj hlast; decide

/-- A token that has been found ends in no line end. -/
theorem endsLine_of_scan (h : scan d fresh c rest = .ok (.token kind, n)) :
    ∃ a, (c :: rest.take n).getLast? = some a ∧ endsLine a = false := by
  have hscanned := scan_scanned d fresh c rest
  rw [h] at hscanned
  cases hscanned with
  | skipped hrole => exact absurd rfl (hrole kind)
  | @token _ word more _ split length hspelling =>
    have hword : c :: rest.take n = word := by
      have htake := congrArg (List.take (n + 1)) split
      rwa [List.take_succ_cons, ← length, List.take_left] at htake
    rw [hword]
    -- At a line end something else would have been found, a blank.
    have hfirst : ∀ a ∈ word.head?, endsLine a = false := by
      rw [← hword]
      intro a ha
      obtain rfl := Option.some.inj ha
      cases hline : endsLine c with
      | false => rfl
      | true =>
        rw [scan_of_isBlank (isBlank_of_endsLine hline)] at h
        cases h
    have hne : word ≠ [] := List.ne_nil_of_length_eq_add_one length
    have hlast := List.getLast?_eq_some_getLast hne
    exact ⟨_, hlast, hspelling.endsLine_getLast? hfirst hlast⟩

end Spellings

/-! ## From segment to segment -/

/-- The tokens end before the place, and the line is fresh exactly if none of them reaches into it. -/
structure Tracks (bytes : List UInt8) (before : List Token) (p : Position) (fresh : Bool) :
    Prop where
  passed : ∀ t ∈ before, t.span.stop ≤ p.offset
  fresh_iff : fresh = true ↔ LineFree bytes before p

section Tracks

variable {bytes : List UInt8} {before : List Token} {p : Position} {fresh : Bool}
  {word : List Char} {c : Char}

theorem Tracks.start (bytes : List UInt8) : Tracks bytes [] {} true where
  passed := nofun
  fresh_iff := ⟨fun _ => nofun, fun _ => rfl⟩

theorem le_offset_after (p : Position) (word : List Char) : p.offset ≤ (p.after word).offset := by
  rw [offset_after]
  exact Nat.le_add_right _ _

/-- Where a text goes on to a further line, this starts in it. -/
theorem any_endsLine_iff (hp : Located bytes p) (hq : Located bytes (p.after word)) :
    word.any endsLine = true ↔ p.offset < lineStart bytes (p.after word).offset := by
  have hle := le_offset_after p word
  constructor
  · intro hany
    exact hp.lt_lineStart hq hle (lt_line_after hany)
  · intro hlt
    cases hany : word.any endsLine with
    | true => rfl
    | false =>
      have hsame := hp.lineStart_eq hq hle (line_after_of_not_any hany)
      have := lineStart_le bytes p.offset
      omega

/-- Over a text without a token: a line that ends in it leaves the next one free. -/
theorem Tracks.skip (h : Tracks bytes before p fresh) (hp : Located bytes p)
    (hq : Located bytes (p.after word)) :
    Tracks bytes before (p.after word) (fresh || word.any endsLine) where
  passed t ht := Nat.le_trans (h.passed t ht) (le_offset_after p word)
  fresh_iff := by
    cases hany : word.any endsLine with
    | true =>
      have hlt := (any_endsLine_iff hp hq).1 hany
      have hfree : LineFree bytes before (p.after word) := by
        intro t ht
        exact Nat.le_trans (h.passed t ht) (Nat.le_of_lt hlt)
      simpa using hfree
    | false =>
      have hsame := hp.lineStart_eq hq (le_offset_after p word) (line_after_of_not_any hany)
      rw [Bool.or_false, h.fresh_iff, LineFree, LineFree, hsame]

/-- Over a token: the line on which it ends is not free. -/
theorem Tracks.token (h : Tracks bytes before p fresh) (hp : Located bytes p)
    (hq : Located bytes (p.after word)) (hlast : word.getLast? = some c)
    (hc : endsLine c = false) (kind : Token.Kind) (startsLine : Bool) :
    Tracks bytes (before ++ [⟨kind, ⟨p, (p.after word).offset⟩, startsLine⟩]) (p.after word)
      false := by
  constructor
  case passed =>
    intro t ht
    rcases List.mem_append.1 ht with ht | ht
    · exact Nat.le_trans (h.passed t ht) (le_offset_after p word)
    · rw [List.mem_singleton.1 ht]
  case fresh_iff =>
    have hcolumn : 1 < (p.after word).column := by
      apply one_lt_column_after _ hlast hc
      rw [hp.column]
      exact Nat.le_add_right 1 _
    rw [hq.column] at hcolumn
    -- The token itself reaches into the line on which it ends.
    have hreaches : ¬(p.after word).offset ≤ lineStart bytes (p.after word).offset := by omega
    constructor
    · exact nofun
    · intro hfree
      exact absurd (hfree _ (List.mem_append_right _ List.mem_cons_self)) hreaches

end Tracks

/-! ## The whole text -/

/-- From any place on, a token is marked if its line is free or if it goes on to a further one. -/
theorem startsLine_of_go {d : Dialect} {text rest : List Char} {p : Position} {fresh : Bool}
    {earlier before behind : List Token} {t : Token} (hat : At text rest p)
    (htracks : Tracks (encode text) earlier p fresh)
    (hsplit : Token.ofSegments p fresh (Cut.go d fresh 0 rest).segments = before ++ t :: behind) :
    t.startsLine = true ↔
      LineFree (encode text) (earlier ++ before) t.span.start ∨ t.GoesOn (encode text) := by
  -- A segment leaves a shorter text, at the place behind it, and perhaps one more earlier token.
  -- `Tracks` goes along.
  induction hn : rest.length using Nat.strongRecOn generalizing rest fresh p earlier before with
  | ind _ ih =>
    subst hn
    cases rest with
    | nil => simp [Cut.go, Token.ofSegments] at hsplit
    | cons c rest =>
      cases hscan : scan d fresh c rest with
      | error what => simp [Cut.go, hscan, Token.ofSegments] at hsplit
      | ok reach =>
        obtain ⟨role, n⟩ := reach
        have hword : c :: rest = (c :: rest.take n) ++ rest.drop n := by
          rw [List.cons_append, List.take_append_drop]
        have hnext : At text (rest.drop n) (p.after (c :: rest.take n)) := by
          rw [hword] at hat
          exact At.pass (s := { position := p }) hat (between_of_scan hscan)
        have hlength : (rest.drop n).length < (c :: rest).length := by
          rw [List.length_drop, List.length_cons]
          omega
        have hp := located_of_at hat
        have hq := located_of_at hnext
        rw [Cut.go, hscan] at hsplit
        simp only [Cut.go_drop d _ n] at hsplit
        by_cases hrole : ∃ kind, role = .token kind
        · obtain ⟨kind, rfl⟩ := hrole
          obtain ⟨a, hlast, ha⟩ := endsLine_of_scan hscan
          rw [ofSegments_token] at hsplit
          cases before with
          | nil =>
            -- The token itself.
            obtain ⟨rfl, -⟩ := List.cons.inj hsplit
            rw [Bool.or_eq_true, htracks.fresh_iff, any_endsLine_iff hp hq, List.append_nil]
            rfl
          | cons first before =>
            obtain ⟨rfl, hrest⟩ := List.cons.inj hsplit
            have htoken := htracks.token hp hq hlast ha kind
              (fresh || (c :: rest.take n).any endsLine)
            have hmark := ih _ hlength hnext htoken hrest rfl
            rwa [List.append_assoc] at hmark
        · have hrole' : ∀ kind, role ≠ .token kind := fun kind h => hrole ⟨kind, h⟩
          have hleaves : Segment.leavesFresh fresh ⟨role, c :: rest.take n⟩
              = (fresh || (c :: rest.take n).any endsLine) := by
            cases role with
            | token kind => exact absurd rfl (hrole' kind)
            | blank | lineComment | blockComment | directive | bytePrefix => rfl
          rw [ofSegments_skip hrole', hleaves] at hsplit
          exact ih _ hlength hnext (htracks.skip hp hq) hsplit rfl

/-- A token is marked as starting its line exactly if no token before it reaches into the line where
it starts, or if it goes on to a further line itself. -/
theorem startsLine_iff {d : Dialect} {source : String} {before behind : List Token} {t : Token}
    (h : tokenize d source = .ok (before ++ t :: behind)) :
    t.startsLine = true ↔
      LineFree (Text.bytes source) before t.span.start ∨ t.GoesOn (Text.bytes source) := by
  have htokens : Token.ofSegments {} true (Cut.go d true 0 source.toList).segments
      = before ++ t :: behind := by
    unfold tokenize at h
    dsimp only at h
    split at h
    · exact Except.ok.inj h
    · cases h
  have hmark := startsLine_of_go (At.start source.toList) (Tracks.start _) htokens
  rwa [List.nil_append] at hmark

/-! ## A literal over two lines -/

namespace LongLiteral

/-- A statement with a literal that goes on behind a line end. -/
def source : String := "return \"a\\\nb\";"

/-- The word in front of the literal. -/
def front : Token := ⟨.identifier "return", ⟨⟨0, 1, 1⟩, 6⟩, true⟩

/-- The literal. -/
def literal : Token := ⟨.string "a\\\nb", ⟨⟨7, 1, 8⟩, 13⟩, true⟩

/-- What stands behind it, on the second line. -/
def semicolon : Token := ⟨.semicolon, ⟨⟨13, 2, 3⟩, 14⟩, false⟩

theorem tokenize_source : tokenize .c source = .ok [front, literal, semicolon] :=
  Token.tokenize_eq_ok (by decide +kernel)

end LongLiteral

open LongLiteral in
/-- The literal reaches into the line of the semicolon behind it. -/
theorem startsLine_iff_semicolon :
    tokenize .c source = .ok ([front, literal] ++ semicolon :: []) ∧
      ¬LineFree (Text.bytes source) [front, literal] semicolon.span.start ∧
      ¬semicolon.GoesOn (Text.bytes source) := by
  refine ⟨tokenize_source, not_or.1 ?_⟩
  rw [← startsLine_iff tokenize_source]
  decide

open LongLiteral in
/-- A token that goes on to a further line is marked, although another one stands before it. -/
theorem startsLine_not_first :
    ¬∀ (d : Dialect) (source : String) (before behind : List Token) (t : Token),
      tokenize d source = .ok (before ++ t :: behind) →
        (t.startsLine = true ↔ LineFree (Text.bytes source) before t.span.start) := by
  intro h
  have hfree : LineFree (Text.bytes source) [front] literal.span.start :=
    (h .c source [front] [semicolon] literal tokenize_source).1 rfl
  exact absurd hfree (by decide +kernel)

end ForeignModule
