import ForeignModule.Proofs.Source.LineEnding
import ForeignModule.Proofs.Token.Lossless
import ForeignModule.Proofs.Token.Outline

/-!
# Tokens under other line endings

With CR LF, or CR, in place of each line feed a source is cut into the same segments, in their new
form (`go_write`), and each of them lies on the same line and in the same column as before
(`after_write`). So the tokens are the same up to their byte offsets, and what is left open is left
open in the same place (`tokenize_rewrite`).
-/

namespace ForeignModule

open Source Token

/-- A token without its byte offsets. -/
structure Placed where
  kind : Token.Kind
  line : Nat
  column : Nat
  startsLine : Bool
deriving DecidableEq, Repr

/-- The token without its byte offsets. -/
def Token.placed (t : Token) : Placed := ⟨t.kind, t.line, t.span.column, t.startsLine⟩

/-- The tokens of a source without their byte offsets, or what is left open in it, and where. -/
def placed (d : Dialect) (source : String) : Except (Unclosed × Nat × Nat) (List Placed) :=
  match tokenize d source with
  | .ok tokens => .ok (tokens.map Token.placed)
  | .error e => .error (e.what, e.span.line, e.span.column)

namespace LineEnding

/-- The token with this line ending in place of each line feed. -/
def placed (e : LineEnding) (t : Placed) : Placed := { t with kind := e.kind t.kind }

/-- The segment with this line ending in place of each line feed. -/
def segment (e : LineEnding) (s : Segment) : Segment := ⟨e.role s.role, e.write s.text⟩

section

variable {e : LineEnding} {d : Dialect} {fresh : Bool} {c : Char} {role : Role}
  {tail rest text : List Char} {segments : List Segment} {p q : Position}

/-! ## Segments -/

/-- What is found is found again with its new text. -/
theorem exists_scan_write (hscan : scan d fresh c (tail ++ rest) = .ok (role, tail.length))
    (h : '\r' ∉ tail ++ rest) : ∃ a text, e.write (c :: tail) = a :: text ∧
      scan d fresh a (text ++ e.write rest) = .ok (e.role role, text.length) := by
  by_cases hc : c = '\n'
  · -- The carriage return in place of the line feed is a blank as well.
    subst hc
    rw [scan_of_isBlank rfl] at hscan
    obtain ⟨rfl, hlength⟩ := Prod.mk.inj (Except.ok.inj hscan)
    have htail : (tail ++ rest).takeWhile isBlank = tail := by
      rw [List.prefix_iff_eq_take.1 (List.takeWhile_prefix _), hlength, List.take_left]
    refine ⟨'\r', e.more ++ e.write tail, rfl, ?_⟩
    rw [List.append_assoc, ← write_append, scan_newline, htail]
    rfl
  · refine ⟨c, e.write tail, write_cons hc tail, ?_⟩
    rw [← write_append, scan_write hc h, hscan]
    simp [Except.map, reach]

theorem leavesFresh_segment (s : Segment) :
    (e.segment s).leavesFresh fresh = s.leavesFresh fresh := by
  obtain ⟨role, text⟩ := s
  have hany : (e.write text).any endsLine = text.any endsLine := any_write rfl text
  cases role <;> simp [Segment.leavesFresh, segment, LineEnding.role, Segment.breaksLine, hany]

/-- The first segment is cut off in its new form. -/
theorem go_write_of_scan (hscan : scan d fresh c (tail ++ rest) = .ok (role, tail.length))
    (h : '\r' ∉ tail ++ rest) : Cut.go d fresh 0 (e.write (c :: tail ++ rest)) =
      { Cut.go d (Segment.leavesFresh fresh ⟨role, c :: tail⟩) 0 (e.write rest) with
        segments := e.segment ⟨role, c :: tail⟩ ::
          (Cut.go d (Segment.leavesFresh fresh ⟨role, c :: tail⟩) 0 (e.write rest)).segments } := by
  obtain ⟨a, text, hwrite, hscan'⟩ := exists_scan_write (e := e) hscan h
  have hsegment : e.segment ⟨role, c :: tail⟩ = ⟨e.role role, a :: text⟩ :=
    congrArg (Segment.mk (e.role role)) hwrite
  have hleaves : Segment.leavesFresh fresh ⟨e.role role, a :: text⟩
      = Segment.leavesFresh fresh ⟨role, c :: tail⟩ := hsegment ▸ leavesFresh_segment _
  rw [write_append, hwrite, go_of_scan hscan', hleaves, hsegment]

/-- A text in its new form is cut into its segments in their new form. -/
theorem go_write (h : '\r' ∉ text) : Cut.go d fresh 0 (e.write text) =
    { segments := (Cut.go d fresh 0 text).segments.map e.segment
      unclosed? := (Cut.go d fresh 0 text).unclosed?.map fun open? => (open?.1, e.write open?.2) } := by
  -- What is left to be cut behind a segment may be shorter by many characters.
  induction hn : text.length using Nat.strongRecOn generalizing text fresh with
  | ind _ ih =>
    subst hn
    cases text with
    | nil => rfl
    | cons c inner =>
      cases hscan : scan d fresh c inner with
      | error what =>
        have hc : c ≠ '\n' := by
          rintro rfl
          rw [scan_of_isBlank rfl] at hscan
          cases hscan
        rw [List.mem_cons, not_or] at h
        have hscan' : scan d fresh c (e.write inner) = .error what := by
          rw [scan_write hc h.2, hscan]
          rfl
        rw [write_cons hc, Cut.go, Cut.go, hscan, hscan']
        simp [write_cons hc]
      | ok reach =>
        obtain ⟨role, n⟩ := reach
        obtain ⟨tail, rest, rfl, rfl⟩ := exists_of_scan hscan
        rw [List.mem_cons, not_or] at h
        have hshorter : rest.length < (c :: (tail ++ rest)).length := by
          simp only [List.length_cons, List.length_append]
          omega
        have hrest : Cut.go d (Segment.leavesFresh fresh ⟨role, c :: tail⟩) 0 (e.write rest) = _ :=
          ih rest.length hshorter (fun hmem => h.2 (List.mem_append_right _ hmem)) rfl
        rw [← List.cons_append, go_write_of_scan hscan h.2, go_of_scan hscan, hrest]
        rfl

theorem texts_segment (segments : List Segment) :
    Segment.texts (segments.map e.segment) = e.write (Segment.texts segments) := by
  induction segments with
  | nil => rfl
  | cons s segments ih =>
    rw [List.map_cons, Segment.texts_cons, Segment.texts_cons, write_append, ih]
    rfl

/-! ## Places -/

/-- Positions in one line and column. -/
def SamePlace (p q : Position) : Prop := p.line = q.line ∧ p.column = q.column

/-- The new line endings count as those before. -/
theorem after_write (h : '\r' ∉ text) (hsame : SamePlace q p) :
    SamePlace (q.after (e.write text)) (p.after text) := by
  induction text generalizing p q with
  | nil => exact hsame
  | cons c text ih =>
    rw [List.mem_cons, not_or] at h
    have hreturn : c ≠ '\r' := Ne.symm h.1
    by_cases hc : c = '\n'
    · subst hc
      -- One line end for one line end: both lead to the start of the next line.
      have hnext : SamePlace (q.after ('\r' :: e.more)) (p.after ['\n']) := by
        cases e <;> exact ⟨congrArg (· + 1) hsame.1, rfl⟩
      have hwrite : q.after (e.write ('\n' :: text))
          = (q.after ('\r' :: e.more)).after (e.write text) :=
        Bounds.after_append (e.stride text).between q
      rw [hwrite, Bounds.after_cons (between_of_ne hreturn text)]
      exact ih h.2 hnext
    · have hone : SamePlace (q.after [c]) (p.after [c]) := by
        rw [Bounds.after_one, Bounds.after_one]
        split
        · exact ⟨congrArg (· + 1) hsame.1, rfl⟩
        · exact ⟨hsame.1, congrArg (· + c.utf8Size) hsame.2⟩
      have hwrite : q.after (e.write (c :: text)) = (q.after [c]).after (e.write text) := by
        rw [write_cons hc]
        exact Bounds.after_cons (between_of_ne hreturn _) q
      rw [hwrite, Bounds.after_cons (between_of_ne hreturn text)]
      exact ih h.2 hone

/-- The tokens of segments in their new form are those of the segments, in the same places. -/
theorem placed_ofSegments (h : '\r' ∉ Segment.texts segments) (hsame : SamePlace q p) :
    (ofSegments q fresh (segments.map e.segment)).map Token.placed
      = ((ofSegments p fresh segments).map Token.placed).map e.placed := by
  induction segments generalizing p q fresh with
  | nil => rfl
  | cons s segments ih =>
    rw [Segment.texts_cons, List.mem_append, not_or] at h
    obtain ⟨role, text⟩ := s
    have hsame' : SamePlace (q.after (e.write text)) (p.after text) := after_write h.1 hsame
    have hany : (e.write text).any endsLine = text.any endsLine := any_write rfl text
    cases role with
    | token kind =>
      rw [List.map_cons, segment, LineEnding.role, ofSegments_token, ofSegments_token, hany]
      simp only [List.map_cons, ih h.2 hsame', Token.placed, LineEnding.placed, Token.line, Span.line,
        Span.column, hsame.1, hsame.2]
    | blank | lineComment | blockComment | directive | bytePrefix =>
      rw [List.map_cons, segment, ofSegments_skip (by simp) p,
        ofSegments_skip (by simp [LineEnding.role]) q, hany]
      exact ih h.2 hsame'

end

end LineEnding

open LineEnding

/-- Under other line endings a source without carriage returns has the same tokens in the same lines
and columns, up to the line ends that they hold, or the same is left open in the same place. -/
theorem tokenize_rewrite (e : LineEnding) (d : Dialect) (source : String) (h : '\r' ∉ source.toList) :
    placed d (e.rewrite source) = (placed d source).map (List.map e.placed) := by
  obtain ⟨after, rest, hsplit, -⟩ := Leads.of_go d true source.toList
  have htexts : '\r' ∉ Segment.texts (Cut.go d true 0 source.toList).segments := fun hmem =>
    h (hsplit ▸ List.mem_append_left _ hmem)
  simp only [placed, tokenize, Cut.ofSource, rewrite, String.toList_ofList, go_write h]
  cases (Cut.go d true 0 source.toList).unclosed? with
  | none => exact congrArg Except.ok (placed_ofSegments htexts ⟨rfl, rfl⟩)
  | some open? =>
    obtain ⟨hline, hcolumn⟩ : SamePlace (({} : Position).after (e.write _)) (({} : Position).after _) :=
      after_write htexts ⟨rfl, rfl⟩
    rw [← texts_segment] at hline hcolumn
    exact congrArg Except.error (congrArg (Prod.mk open?.1) (Prod.ext hline hcolumn))

/-- A string and a comment over line ends. -/
theorem tokenize_rewrite_multiLine :
    '\r' ∉ "x = \"a\\\nb\";\n/* c\n*/ y".toList ∧
      placed .rust "x = \"a\\\r\nb\";\r\n/* c\r\n*/ y"
        = (placed .rust "x = \"a\\\nb\";\n/* c\n*/ y").map (List.map crLf.placed) := by
  have hrewrite : crLf.rewrite "x = \"a\\\nb\";\n/* c\n*/ y"
      = "x = \"a\\\r\nb\";\r\n/* c\r\n*/ y" := by decide
  have hreturn : '\r' ∉ "x = \"a\\\nb\";\n/* c\n*/ y".toList := by decide
  exact ⟨hreturn, hrewrite ▸ tokenize_rewrite crLf .rust _ hreturn⟩

end ForeignModule
