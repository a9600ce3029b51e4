import ForeignModule.Proofs.Bounds.ScannerRun
import ForeignModule.Proofs.Source.Segment

/-!
# Nothing of a source text is lost

Every byte of a text belongs to a token, in its spelling, or to a blank, a comment, a preprocessor
line or the letter of a byte string (`Lossless`). A text in which a literal or a comment is left
open has one error, at the opening, and nothing is lost up to there (`tokenize_lossless`).

The run of the tokenizer is followed segment by segment: `LosslessFrom` speaks of the tokens from
a byte on, `LosslessFrom.token` and `LosslessFrom.skip` put a segment in front.
-/

namespace ForeignModule

open Bounds (encode)
open Source

/-- The text stands between two byte offsets of the source, with `rest` behind it. -/
def Stands (source text rest : List Char) (start stop : Nat) : Prop :=
  ∃ front, source = front ++ text ++ rest ∧ (encode front).length = start ∧
    (encode (front ++ text)).length = stop

/-- A character between two byte offsets ends a line. -/
def LineEnds (source : List Char) (start stop : Nat) : Prop :=
  ∃ front c rest, source = front ++ c :: rest ∧ endsLine c = true ∧
    start ≤ (encode front).length ∧ (encode (front ++ [c])).length ≤ stop

/-- Behind every token before the offset a line ends. -/
def FirstOnLine (source : List Char) (tokens : List Token) (start : Nat) : Prop :=
  ∀ t ∈ tokens, t.span.stop ≤ start → LineEnds source t.span.stop start

/-- The byte belongs to the token. -/
def Token.Covers (t : Token) (i : Nat) : Prop := t.span.start.offset ≤ i ∧ i < t.span.stop

/-- The byte belongs to a text that no token comes from, and that no token reaches into. -/
def Covered (d : Dialect) (source : List Char) (tokens : List Token) (i : Nat) : Prop :=
  ∃ text rest start stop, Stands source text rest start stop ∧ start ≤ i ∧ i < stop ∧
    Skipped (FirstOnLine source tokens start) d text rest ∧
    ∀ t ∈ tokens, t.span.stop ≤ start ∨ stop ≤ t.span.start.offset

/-- The tokens account for every byte of the source before `stop`. -/
structure Lossless (d : Dialect) (source : List Char) (stop : Nat) (tokens : List Token) :
    Prop where
  nonempty : ∀ t ∈ tokens, t.span.start.offset < t.span.stop
  /-- Each token ends before the next ones start. -/
  ordered : tokens.Pairwise fun t u => t.span.stop ≤ u.span.start.offset
  inside : ∀ t ∈ tokens, t.span.stop ≤ stop
  /-- Each token has its spelling in its place. -/
  spelled : ∀ t ∈ tokens, ∃ text rest, Stands source text rest t.span.start.offset t.span.stop ∧
    Spelling d t.kind text
  covered : ∀ i < stop, (∃ t ∈ tokens, t.Covers i) ∨ Covered d source tokens i

/-! ## From a byte on -/

/-- The tokens account for every byte from `start` to `stop`. If the line is not fresh at `start`,
it holds a token before that. -/
structure LosslessFrom (d : Dialect) (source : List Char) (start stop : Nat) (fresh : Bool)
    (tokens : List Token) : Prop where
  le : start ≤ stop
  nonempty : ∀ t ∈ tokens, t.span.start.offset < t.span.stop
  ordered : tokens.Pairwise fun t u => t.span.stop ≤ u.span.start.offset
  between : ∀ t ∈ tokens, start ≤ t.span.start.offset ∧ t.span.stop ≤ stop
  spelled : ∀ t ∈ tokens, ∃ text rest, Stands source text rest t.span.start.offset t.span.stop ∧
    Spelling d t.kind text
  covered : ∀ i, start ≤ i → i < stop → (∃ t ∈ tokens, t.Covers i) ∨
    ∃ text rest a b, Stands source text rest a b ∧ start ≤ a ∧ a ≤ i ∧ i < b ∧
      Skipped (FirstOnLine source tokens a ∧ (fresh = false → LineEnds source start a)) d text
        rest ∧ ∀ t ∈ tokens, t.span.stop ≤ a ∨ b ≤ t.span.start.offset

section

variable {d : Dialect} {source front word rest : List Char} {start stop a b : Nat} {fresh : Bool}
  {kind : Token.Kind} {p : Position} {tokens : List Token}

theorem length_encode_append (front word : List Char) :
    (encode (front ++ word)).length = (encode front).length + (encode word).length := by
  rw [Bounds.encode_append, List.length_append]

theorem length_encode_pos (h : word ≠ []) : 0 < (encode word).length := by
  obtain ⟨c, more, rfl⟩ := List.exists_cons_of_ne_nil h
  rw [Bounds.encode_cons, List.length_append, String.length_utf8EncodeChar]
  have := c.utf8Size_pos
  omega

theorem LineEnds.mono (h : LineEnds source a b) (ha : start ≤ a) (hb : b ≤ stop) :
    LineEnds source start stop := by
  obtain ⟨front, c, rest, hsource, hc, hstart, hstop⟩ := h
  exact ⟨front, c, rest, hsource, hc, Nat.le_trans ha hstart, Nat.le_trans hstop hb⟩

/-- A text in which a line ends. -/
theorem LineEnds.of_any (h : word.any endsLine = true) (hsource : source = front ++ word ++ rest)
    (hb : (encode (front ++ word)).length ≤ b) : LineEnds source (encode front).length b := by
  obtain ⟨c, hc, hend⟩ := List.any_eq_true.1 h
  obtain ⟨left, right, rfl⟩ := List.append_of_mem hc
  refine ⟨front ++ left, c, right ++ rest, by simp [hsource], hend, ?_, ?_⟩
  · rw [length_encode_append]
    omega
  · have hcons : left ++ c :: right = left ++ [c] ++ right := by simp
    rw [hcons, ← List.append_assoc, length_encode_append] at hb
    rw [← List.append_assoc] at hb
    omega

theorem LosslessFrom.nil : LosslessFrom d source start start fresh [] where
  le := Nat.le_refl _
  nonempty := by simp
  ordered := .nil
  between := by simp
  spelled := by simp
  covered i hi hlt := absurd hlt (Nat.not_lt.2 hi)

/-- A token in front: it covers its own bytes, and those behind it are not the first on its
line. -/
theorem LosslessFrom.token (hsource : source = front ++ word ++ rest) (hne : word ≠ [])
    (hp : p.offset = (encode front).length) (hword : Spelling d kind word) (startsLine : Bool)
    (h : LosslessFrom d source (encode (front ++ word)).length stop false tokens) :
    LosslessFrom d source (encode front).length stop fresh
      (⟨kind, ⟨p, (encode (front ++ word)).length⟩, startsLine⟩ :: tokens) := by
  have hsize := length_encode_append front word
  have hpos := length_encode_pos hne
  constructor
  case le => exact Nat.le_trans (by omega) h.le
  case nonempty =>
    rintro t (_ | ⟨_, ht⟩)
    · simp only [hp]
      omega
    · exact h.nonempty t ht
  case ordered => exact .cons (fun u hu => (h.between u hu).1) h.ordered
  case between =>
    rintro t (_ | ⟨_, ht⟩)
    · exact ⟨Nat.le_of_eq hp.symm, h.le⟩
    · obtain ⟨hstart, hstop⟩ := h.between t ht
      exact ⟨by omega, hstop⟩
  case spelled =>
    rintro t (_ | ⟨_, ht⟩)
    · exact ⟨word, rest, ⟨front, hsource, hp.symm, rfl⟩, hword⟩
    · exact h.spelled t ht
  case covered =>
    intro i hi hlt
    by_cases hinside : i < (encode (front ++ word)).length
    · exact .inl ⟨_, List.mem_cons_self, Nat.le_trans (Nat.le_of_eq hp) hi, hinside⟩
    · rcases h.covered i (by omega) hlt with ⟨t, ht, hcovers⟩ |
        ⟨text, rest', a, b, hstands, ha, hai, hib, hskipped, happart⟩
      · exact .inl ⟨t, List.mem_cons_of_mem _ ht, hcovers⟩
      · refine .inr ⟨text, rest', a, b, hstands, by omega, hai, hib, hskipped.mono ?_, ?_⟩
        · -- Behind the token no line is fresh, so that one has to end before a directive.
          rintro ⟨hfirst, hline⟩
          refine ⟨?_, fun _ => (hline rfl).mono (by omega) (Nat.le_refl _)⟩
          rintro t (_ | ⟨_, ht⟩) hbefore
          · exact hline rfl
          · exact hfirst t ht hbefore
        · rintro t (_ | ⟨_, ht⟩)
          · exact .inl ha
          · exact happart t ht

/-- A text without a token in front: a line that ends in it leaves the next one fresh. -/
theorem LosslessFrom.skip (hsource : source = front ++ word ++ rest)
    (hword : Skipped (fresh = true) d word rest)
    (h : LosslessFrom d source (encode (front ++ word)).length stop (fresh || word.any endsLine)
      tokens) :
    LosslessFrom d source (encode front).length stop fresh tokens := by
  have hsize := length_encode_append front word
  constructor
  case le => exact Nat.le_trans (by omega) h.le
  case nonempty => exact h.nonempty
  case ordered => exact h.ordered
  case between =>
    intro t ht
    obtain ⟨hstart, hstop⟩ := h.between t ht
    exact ⟨by omega, hstop⟩
  case spelled => exact h.spelled
  case covered =>
    intro i hi hlt
    by_cases hinside : i < (encode (front ++ word)).length
    · refine .inr ⟨word, rest, _, _, ⟨front, hsource, rfl, rfl⟩, Nat.le_refl _, hi, hinside,
        hword.mono ?_, fun t ht => .inr (h.between t ht).1⟩
      intro hfresh
      refine ⟨fun t ht hbefore => ?_, fun hnot => ?_⟩
      · -- All tokens lie behind the text.
        have := (h.between t ht).1
        have := h.nonempty t ht
        omega
      · rw [hfresh] at hnot
        cases hnot
    · rcases h.covered i (by omega) hlt with hcovers |
        ⟨text, rest', a, b, hstands, ha, hai, hib, hskipped, happart⟩
      · exact .inl hcovers
      · refine .inr ⟨text, rest', a, b, hstands, by omega, hai, hib, hskipped.mono ?_, happart⟩
        rintro ⟨hfirst, hline⟩
        refine ⟨hfirst, fun hnot => ?_⟩
        -- The line ends in the text itself, or behind it.
        cases hany : word.any endsLine with
        | true => exact .of_any hany hsource ha
        | false => exact (hline (by rw [hnot, hany]; rfl)).mono (by omega) (Nat.le_refl _)

/-! ## The run -/

theorem ofSegments_token (p : Position) (fresh : Bool) (kind : Token.Kind) (word : List Char)
    (segments : List Segment) :
    Token.ofSegments p fresh (⟨.token kind, word⟩ :: segments)
      = ⟨kind, ⟨p, (p.after word).offset⟩, fresh || word.any endsLine⟩
        :: Token.ofSegments (p.after word) false segments := rfl

theorem ofSegments_skip {role : Role} (hrole : ∀ kind, role ≠ .token kind) (p : Position)
    (fresh : Bool) (word : List Char) (segments : List Segment) :
    Token.ofSegments p fresh (⟨role, word⟩ :: segments)
      = Token.ofSegments (p.after word) (fresh || word.any endsLine) segments := by
  cases role with
  | token kind => exact absurd rfl (hrole kind)
  | blank | lineComment | blockComment | directive | bytePrefix => rfl

/-- What is found first is the first segment, and the rest is cut behind it. -/
theorem go_of_split {role : Role} {c : Char} {inner more : List Char} {n : Nat}
    (hscan : scan d fresh c inner = .ok (role, n)) (hsplit : c :: inner = word ++ more)
    (hlength : word.length = n + 1) :
    (Cut.go d fresh 0 (c :: inner)).segments = ⟨role, word⟩ ::
        (Cut.go d (Segment.leavesFresh fresh ⟨role, word⟩) 0 more).segments ∧
      (Cut.go d fresh 0 (c :: inner)).text
        = word ++ (Cut.go d (Segment.leavesFresh fresh ⟨role, word⟩) 0 more).text := by
  cases word with
  | nil => cases hlength
  | cons c' tail =>
    obtain ⟨rfl, hinner⟩ := List.cons.inj hsplit
    obtain rfl : inner = tail ++ more := hinner
    obtain rfl : tail.length = n := Nat.succ.inj hlength
    rw [Cut.go, hscan]
    simp only [List.take_left, Cut.go_drop d _ tail.length, List.drop_left, Cut.text,
      List.flatMap_cons, and_self]

/-- From any place on, the segments account for the text that they take up. -/
theorem losslessFrom_go (hsource : source = front ++ rest) (hp : p.offset = (encode front).length) :
    LosslessFrom d source (encode front).length
      (encode (front ++ (Cut.go d fresh 0 rest).text)).length fresh
      (Token.ofSegments p fresh (Cut.go d fresh 0 rest).segments) := by
  -- A segment leaves a shorter text, at the place behind it.
  induction hn : rest.length using Nat.strongRecOn generalizing front rest fresh p with
  | ind _ ih =>
    subst hn
    cases rest with
    | nil => simpa [Cut.go, Cut.text, Token.ofSegments] using LosslessFrom.nil
    | cons c inner =>
      have hscanned := scan_scanned d fresh c inner
      cases hscan : scan d fresh c inner with
      | error what =>
        rw [Cut.go, hscan]
        simpa [Cut.text, Token.ofSegments] using LosslessFrom.nil
      | ok reach =>
        obtain ⟨role, n⟩ := reach
        rw [hscan] at hscanned
        -- What is known behind the segment, be it a token or not.
        have hbehind : ∀ {word more}, c :: inner = word ++ more → word.length = n + 1 →
            (p.after word).offset = (encode (front ++ word)).length ∧
            LosslessFrom d source (encode (front ++ word)).length
              (encode (front ++ (Cut.go d fresh 0 (c :: inner)).text)).length
              (Segment.leavesFresh fresh ⟨role, word⟩)
              (Token.ofSegments (p.after word) (Segment.leavesFresh fresh ⟨role, word⟩)
                (Cut.go d (Segment.leavesFresh fresh ⟨role, word⟩) 0 more).segments) := by
          intro word more hsplit hlength
          have hoffset : (p.after word).offset = (encode (front ++ word)).length := by
            rw [Bounds.offset_after, hp, length_encode_append]
          have hshorter : more.length < (c :: inner).length := by
            rw [hsplit, List.length_append]
            omega
          refine ⟨hoffset, ?_⟩
          rw [(go_of_split hscan hsplit hlength).2, ← List.append_assoc]
          exact ih more.length hshorter (by rw [hsource, hsplit, List.append_assoc]) hoffset rfl
        cases hscanned with
        | token split length h =>
          obtain ⟨hoffset, hrest⟩ := hbehind split length
          rw [(go_of_split hscan split length).1, ofSegments_token, hoffset]
          have hne : _ ≠ [] := List.ne_nil_of_length_eq_add_one length
          exact .token (by rw [hsource, split, List.append_assoc]) hne hp h _ hrest
        | skipped hrole split length h =>
          obtain ⟨-, hrest⟩ := hbehind split length
          rw [(go_of_split hscan split length).1, ofSegments_skip hrole]
          have hleaves : ∀ word, Segment.leavesFresh fresh ⟨role, word⟩
              = (fresh || word.any endsLine) := by
            intro word
            cases role with
            | token kind => exact absurd rfl (hrole kind)
            | blank | lineComment | blockComment | directive | bytePrefix => rfl
          rw [hleaves] at hrest ⊢
          exact .skip (by rw [hsource, split, List.append_assoc]) h hrest

/-! ## The whole text -/

theorem LosslessFrom.lossless (h : LosslessFrom d source 0 stop true tokens) :
    Lossless d source stop tokens where
  nonempty := h.nonempty
  ordered := h.ordered
  inside t ht := (h.between t ht).2
  spelled := h.spelled
  covered i hi := by
    rcases h.covered i (Nat.zero_le i) hi with hcovers |
      ⟨text, rest, a, b, hstands, -, hai, hib, hskipped, happart⟩
    · exact .inl hcovers
    · exact .inr ⟨text, rest, a, b, hstands, hai, hib, hskipped.mono And.left, happart⟩

/-- What is left open is not closed anywhere behind. -/
theorem leftOpen_of_unclosed {skip : Nat} {what : Unclosed} {tail : List Char}
    (h : (Cut.go d fresh skip rest).unclosed? = some (what, tail)) : LeftOpen d what tail := by
  -- Character by character; those of a segment that has been found are skipped.
  induction rest generalizing fresh skip with
  | nil => cases h
  | cons c rest ih =>
    cases skip with
    | succ skip => exact ih h
    | zero =>
      have hscanned := scan_scanned d fresh c rest
      rw [Cut.go] at h
      cases hscan : scan d fresh c rest with
      | error what' =>
        rw [hscan] at h hscanned
        cases h
        cases hscanned with
        | unclosed hopen => exact hopen
      | ok reach =>
        rw [hscan] at h
        exact ih h

/-- Where nothing is left open, the segments are the whole text. -/
theorem text_of_closed {skip : Nat} (h : (Cut.go d fresh skip rest).unclosed? = none) :
    (Cut.go d fresh skip rest).text = rest.drop skip := by
  induction rest generalizing fresh skip with
  | nil => rw [List.drop_nil]; rfl
  | cons c rest ih =>
    cases skip with
    | succ skip => exact ih h
    | zero =>
      rw [Cut.go] at h ⊢
      cases hscan : scan d fresh c rest with
      | error what =>
        rw [hscan] at h
        cases h
      | ok reach =>
        rw [hscan] at h
        have hrest := ih h
        simp only [Cut.text, List.flatMap_cons] at hrest ⊢
        rw [hrest, List.cons_append, List.take_append_drop, List.drop_zero]

end

/-- The error is at the opening of something that nothing closes, and runs to the end. -/
structure RunsToEnd (d : Dialect) (source : List Char) (e : UnclosedError) : Prop where
  stop : e.span.stop = (encode source).length
  opening : ∃ text, Stands source text [] e.span.start.offset e.span.stop ∧ LeftOpen d e.what text

section

variable {d : Dialect} {source : String} {t : Bounds.Reader}

/-- What the reader ends with is what the tokenizer brings. -/
theorem tokenize_of_reader
    (ht : Bounds.loop (Bounds.Scanner.round d (Text.bytes source)) {} = pure t) :
    tokenize d source = match t.errors.head? with
      | none => .ok t.tokens
      | some e => .error e := by
  have hsame := Bounds.Scanner.tokenize_eq d source
  rw [Bounds.Scanner.tokenize, ht, pure_bind] at hsame
  cases herrors : t.errors.head? with
  | none =>
    rw [herrors] at hsame
    exact (Except.ok.inj (Option.some.inj hsame)).symm
  | some e =>
    rw [herrors] at hsame
    exact (Except.ok.inj (Option.some.inj hsame)).symm

/-- The tokenizer loses nothing. Byte by byte it ends with the tokens that it has found and the
errors that it has met. Either there is no error, and the tokens account for the whole source; or
there is one, and they account for the source up to it. -/
theorem tokenize_lossless (d : Dialect) (source : String) :
    ∃ t, Bounds.loop (Bounds.Scanner.round d (Text.bytes source)) {} = pure t ∧
      (t.errors = [] ∧ tokenize d source = .ok t.tokens ∧
          Lossless d source.toList source.utf8ByteSize t.tokens ∨
        ∃ e, t.errors = [e] ∧ tokenize d source = .error e ∧
          Lossless d source.toList e.span.start.offset t.tokens ∧
          RunsToEnd d source.toList e) := by
  obtain ⟨t, ht, htokens, herrors⟩ :=
    Bounds.Scanner.loop_round (d := d) (s := {}) (Bounds.At.start source.toList)
  have htokenize := tokenize_of_reader ht
  have hlossless : Lossless d source.toList
      (encode ([] ++ (Cut.go d true 0 source.toList).text)).length t.tokens := by
    have hstart : source.toList = [] ++ source.toList := rfl
    rw [htokens]
    exact (losslessFrom_go hstart rfl).lossless
  rw [List.nil_append] at hlossless
  refine ⟨t, ht, ?_⟩
  simp only [Bool.not_false] at herrors
  cases hunclosed : (Cut.go d true 0 source.toList).unclosed? with
  | none =>
    rw [hunclosed] at herrors
    rw [herrors] at htokenize
    rw [text_of_closed hunclosed, List.drop_zero, Bounds.length_encode] at hlossless
    exact .inl ⟨herrors, htokenize, hlossless⟩
  | some found =>
    obtain ⟨what, tail⟩ := found
    rw [hunclosed] at herrors
    obtain ⟨p, hat, herror⟩ := herrors
    obtain ⟨front, hfront, hp⟩ := hat.offset_eq
    -- The place of the error is told by what is behind it.
    have hsame : front = (Cut.go d true 0 source.toList).text :=
      (List.append_cancel_right ((Cut.text_append_tail hunclosed).trans hfront)).symm
    rw [← hsame, ← hp] at hlossless
    rw [herror] at htokenize
    refine .inr ⟨_, herror, htokenize, hlossless, rfl, tail, ?_, leftOpen_of_unclosed hunclosed⟩
    exact ⟨front, by rw [List.append_nil, hfront], hp.symm, by rw [← hfront]⟩

end

end ForeignModule
