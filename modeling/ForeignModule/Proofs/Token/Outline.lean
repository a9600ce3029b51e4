import ForeignModule.Proofs.Source.Alike

/-!
# Tokens without their places

The grammars ask of a token what it is and whether it starts its line, never where it stands. The
`outline` of a source is that much of what the tokenizer brings.

A row of segments leads to what stands behind it (`Leads`): each of them is found, one after
another, whatever is cut behind the last one. So the outline of a text is that of a row in front of
it and that of the rest (`Leads.outline_eq`), and a row leads to any other rest that is alike
(`Leads.of_alike`).
-/

namespace ForeignModule

open Source

/-- A token without its place. -/
structure Outline where
  kind : Token.Kind
  startsLine : Bool
deriving DecidableEq, Repr

/-- What a token is, and whether it starts its line. -/
def Token.outline (t : Token) : Outline := ⟨t.kind, t.startsLine⟩

/-- The outlines of the tokens of a source, or what is left open in it. -/
def outline (d : Dialect) (source : String) : Except Unclosed (List Outline) :=
  match tokenize d source with
  | .ok tokens => .ok (tokens.map Token.outline)
  | .error e => .error e.what

theorem exists_of_outline {d : Dialect} {source : String} {outlines : List Outline}
    (h : outline d source = .ok outlines) :
    ∃ tokens, tokenize d source = .ok tokens ∧ tokens.map Token.outline = outlines := by
  unfold outline at h
  cases htokens : tokenize d source with
  | error e => simp [htokens] at h
  | ok tokens =>
    rw [htokens] at h
    exact ⟨tokens, rfl, Except.ok.inj h⟩

namespace Segment

/-- The outlines that come from one segment. -/
def outline (fresh : Bool) (s : Segment) : List Outline :=
  match s.role with
  | .token kind => [⟨kind, fresh || s.breaksLine⟩]
  | _ => []

/-- The outlines that come from segments in a row. -/
def outlines (fresh : Bool) : List Segment → List Outline
  | [] => []
  | s :: rest => s.outline fresh ++ outlines (s.leavesFresh fresh) rest

/-- The text that segments in a row take up. -/
def texts (segments : List Segment) : List Char := segments.flatMap text

@[simp] theorem texts_nil : texts [] = [] := rfl

@[simp] theorem texts_cons (s : Segment) (segments : List Segment) :
    texts (s :: segments) = s.text ++ texts segments := rfl

@[simp] theorem texts_append (front back : List Segment) :
    texts (front ++ back) = texts front ++ texts back := List.flatMap_append

theorem map_outline_ofSegments (p : Position) (fresh : Bool) (segments : List Segment) :
    (Token.ofSegments p fresh segments).map Token.outline = outlines fresh segments := by
  induction segments generalizing p fresh with
  | nil => rfl
  | cons s rest ih =>
    obtain ⟨role, text⟩ := s
    cases role with
    | token kind => exact congrArg (_ :: ·) (ih _ _)
    | blank | lineComment | blockComment | directive | bytePrefix => exact ih _ _

end Segment

/-- The outlines of what is cut, or what is left open behind it. -/
def Cut.outline (fresh : Bool) (cut : Cut) : Except Unclosed (List Outline) :=
  match cut.unclosed? with
  | none => .ok (Segment.outlines fresh cut.segments)
  | some (what, _) => .error what

/-- The outlines of a text, where `fresh` says that no token lies in front of it on its line. -/
def outlineFrom (d : Dialect) (fresh : Bool) (text : List Char) : Except Unclosed (List Outline) :=
  (Cut.go d fresh 0 text).outline fresh

theorem outline_eq (d : Dialect) (source : String) :
    outline d source = outlineFrom d true source.toList := by
  simp only [outline, tokenize, outlineFrom, Cut.outline, Cut.ofSource]
  cases (Cut.go d true 0 source.toList).unclosed? with
  | none => exact congrArg Except.ok (Segment.map_outline_ofSegments _ _ _)
  | some found => rfl

/-! ## Segments in a row -/

/-- In front of the rest these segments are found, one after another. `fresh` and `after` say
whether no token lies on the line in front of them and behind them. -/
inductive Leads (d : Dialect) (after : Bool) (rest : List Char) : Bool → List Segment → Prop where
  | nil : Leads d after rest after []
  | cons {fresh : Bool} {c : Char} {tail : List Char} {role : Role} {segments : List Segment}
      (hscan : scan d fresh c (tail ++ (Segment.texts segments ++ rest)) = .ok (role, tail.length))
      (h : Leads d after rest (Segment.leavesFresh fresh ⟨role, c :: tail⟩) segments) :
      Leads d after rest fresh (⟨role, c :: tail⟩ :: segments)

section

variable {d : Dialect} {fresh after : Bool} {c : Char} {role : Role} {s : Segment}
  {text tail rest rest' : List Char} {segments before behind : List Segment}

/-- What is found lies within the text. -/
theorem exists_of_scan {inner : List Char} {n : Nat} (hscan : scan d fresh c inner = .ok (role, n)) :
    ∃ tail rest, inner = tail ++ rest ∧ tail.length = n := by
  have hscanned := scan_scanned d fresh c inner
  rw [hscan] at hscanned
  -- Both kinds of segments start with `c` and are as long as has been found.
  have hsplit : ∀ {word more : List Char}, c :: inner = word ++ more → word.length = n + 1 →
      ∃ tail rest, inner = tail ++ rest ∧ tail.length = n := by
    intro word more hword hlength
    obtain ⟨a, tail, rfl⟩ := List.exists_cons_of_length_eq_add_one hlength
    exact ⟨tail, more, (List.cons.inj hword).2, Nat.succ.inj hlength⟩
  cases hscanned with
  | token split length => exact hsplit split length
  | skipped _ split length => exact hsplit split length

/-- A segment that is found leaves the rest to be cut. -/
theorem go_of_scan (hscan : scan d fresh c (tail ++ rest) = .ok (role, tail.length)) :
    Cut.go d fresh 0 (c :: tail ++ rest) =
      { Cut.go d (Segment.leavesFresh fresh ⟨role, c :: tail⟩) 0 rest with
        segments := ⟨role, c :: tail⟩ ::
          (Cut.go d (Segment.leavesFresh fresh ⟨role, c :: tail⟩) 0 rest).segments } := by
  rw [List.cons_append, Cut.go]
  simp only [hscan, List.take_left, Token.Reads.go_skip]

theorem outlineFrom_of_scan (hscan : scan d fresh c (tail ++ rest) = .ok (role, tail.length)) :
    outlineFrom d fresh (c :: tail ++ rest) =
      (Segment.outline fresh ⟨role, c :: tail⟩ ++ ·) <$>
        outlineFrom d (Segment.leavesFresh fresh ⟨role, c :: tail⟩) rest := by
  unfold outlineFrom Cut.outline
  rw [go_of_scan hscan]
  cases (Cut.go d (Segment.leavesFresh fresh ⟨role, c :: tail⟩) 0 rest).unclosed? <;> rfl

/-- What no token comes from adds nothing to the outlines. -/
theorem outlineFrom_of_skipped (hrole : ∀ kind, role ≠ .token kind)
    (hscan : scan d fresh c (tail ++ rest) = .ok (role, tail.length)) :
    outlineFrom d fresh (c :: tail ++ rest)
      = outlineFrom d (fresh || (c :: tail).any endsLine) rest := by
  rw [outlineFrom_of_scan hscan]
  cases role with
  | token kind => exact absurd rfl (hrole kind)
  | blank | lineComment | blockComment | directive | bytePrefix => exact id_map _

/-- A blank tells only whether its line is fresh. -/
theorem outlineFrom_blank (hc : isBlank c = true) :
    outlineFrom d fresh (c :: rest) = outlineFrom d (fresh || endsLine c) rest := by
  -- Blanks in a row are one segment, up to what is none.
  have hrow : ∀ (fresh : Bool) (text rest : List Char), (∀ a ∈ text, isBlank a = true) →
      Token.EndsBlank rest → outlineFrom d fresh (text ++ rest)
        = outlineFrom d (fresh || text.any endsLine) rest := by
    intro fresh text rest hall hrest
    cases text with
    | nil => rw [List.any_nil, Bool.or_false, List.nil_append]
    | cons a tail =>
      obtain ⟨ha, htail⟩ := List.forall_mem_cons.1 hall
      have hscan : scan d fresh a (tail ++ rest) = .ok (.blank, tail.length) := by
        rw [scan_of_isBlank ha, length_takeWhile_eq_iff.2 ⟨htail, hrest⟩]
      exact outlineFrom_of_skipped (by simp) hscan
  have hall : ∀ a ∈ rest.takeWhile isBlank, isBlank a = true := fun a ha =>
    List.all_eq_true.1 List.all_takeWhile a ha
  have hends : Token.EndsBlank (rest.dropWhile isBlank) := by
    intro a ha
    have hnot := List.head?_dropWhile_not isBlank rest
    rw [Option.mem_def.1 ha] at hnot
    exact hnot
  rw [← List.takeWhile_append_dropWhile (p := isBlank) (l := rest), ← List.cons_append,
    hrow fresh _ _ (List.forall_mem_cons.2 ⟨hc, hall⟩) hends, hrow _ _ _ hall hends, List.any_cons,
    Bool.or_assoc]

theorem outlineFrom_blanks (h : ∀ a ∈ text, isBlank a = true) :
    outlineFrom d fresh (text ++ rest) = outlineFrom d (fresh || text.any endsLine) rest := by
  induction text generalizing fresh with
  | nil => rw [List.any_nil, Bool.or_false, List.nil_append]
  | cons c tail ih =>
    obtain ⟨hc, htail⟩ := List.forall_mem_cons.1 h
    rw [List.cons_append, outlineFrom_blank hc, ih htail, List.any_cons, Bool.or_assoc]

/-- So does a comment that has a closing. -/
theorem outlineFrom_blockComment (h : Closes (d != .c) 0 text) :
    outlineFrom d fresh ('/' :: '*' :: text ++ rest) = outlineFrom d (fresh || text.any endsLine) rest := by
  have hscan : scan d fresh '/' ('*' :: text ++ rest) = .ok (.blockComment, ('*' :: text).length) := by
    rw [List.cons_append, scan_blockComment, commentLength?_append h]
    rfl
  exact outlineFrom_of_skipped (by simp) hscan

/-- And a comment up to the end of its line. -/
theorem outlineFrom_lineComment (h : ∀ a ∈ text, endsLine a = false)
    (hends : ∀ a ∈ rest.head?, endsLine a = true) :
    outlineFrom d fresh ('/' :: '/' :: text ++ rest) = outlineFrom d fresh rest := by
  have hscan : scan d fresh '/' ('/' :: text ++ rest) = .ok (.lineComment, ('/' :: text).length) := by
    have hlength : (('/' :: text ++ rest).takeWhile (!endsLine ·)).length = ('/' :: text).length :=
      length_takeWhile_eq_iff.2 ⟨by simpa [endsLine] using h, by simpa using hends⟩
    rw [List.cons_append, scan_lineComment, ← List.cons_append, hlength]
  have hnone : ('/' :: '/' :: text).any endsLine = false := by simpa [endsLine] using h
  refine (outlineFrom_of_skipped (by simp) hscan).trans ?_
  rw [hnone, Bool.or_false]

namespace Leads

/-- The outlines of a text start with those of the segments in front. -/
theorem outline_eq (h : Leads d after rest fresh segments) :
    outlineFrom d fresh (Segment.texts segments ++ rest) =
      (Segment.outlines fresh segments ++ ·) <$> outlineFrom d after rest := by
  induction h with
  | nil => exact (id_map _).symm
  | @cons fresh c tail role segments hscan h ih =>
    rw [Segment.texts_cons, List.append_assoc, outlineFrom_of_scan hscan, ih, Functor.map_map]
    simp only [Segment.outlines, List.append_assoc]

/-- What a text is cut into leads to the rest at every point. -/
theorem of_segments (h : (Cut.go d fresh 0 text).segments = before ++ behind) :
    ∃ after rest, text = Segment.texts before ++ rest ∧ Leads d after rest fresh before ∧
      (Cut.go d after 0 rest).segments = behind := by
  induction before generalizing fresh text with
  | nil => exact ⟨fresh, text, rfl, .nil, h⟩
  | cons s before ih =>
    cases text with
    | nil => cases h
    | cons c inner =>
      cases hscan : scan d fresh c inner with
      | error what =>
        rw [Cut.go, hscan] at h
        cases h
      | ok reach =>
        obtain ⟨role, n⟩ := reach
        obtain ⟨tail, more, rfl, rfl⟩ := exists_of_scan hscan
        rw [← List.cons_append, go_of_scan hscan] at h
        obtain ⟨rfl, hrest⟩ := List.cons.inj h
        obtain ⟨after, rest, rfl, hleads, hbehind⟩ := ih hrest
        exact ⟨after, rest, by simp, .cons hscan hleads, hbehind⟩

/-- So do all its segments together. -/
theorem of_go (d : Dialect) (fresh : Bool) (text : List Char) :
    ∃ after rest, text = Segment.texts (Cut.go d fresh 0 text).segments ++ rest ∧
      Leads d after rest fresh (Cut.go d fresh 0 text).segments := by
  have hcut : (Cut.go d fresh 0 text).segments = (Cut.go d fresh 0 text).segments ++ [] :=
    (List.append_nil _).symm
  obtain ⟨after, rest, hsplit, hleads, -⟩ := of_segments hcut
  exact ⟨after, rest, hsplit, hleads⟩

/-- And what leads to a rest is what the text is cut into in front of it. -/
theorem segments_eq (h : Leads d after rest fresh before) :
    (Cut.go d fresh 0 (Segment.texts before ++ rest)).segments
      = before ++ (Cut.go d after 0 rest).segments := by
  induction h with
  | nil => rfl
  | cons hscan h ih =>
    rw [Segment.texts_cons, List.append_assoc, go_of_scan hscan]
    exact congrArg (_ :: ·) ih

/-- A row leads to the rest if its front leads to its back, and that to the rest. -/
theorem append_iff : Leads d after rest fresh (before ++ behind) ↔ ∃ between,
    Leads d between (Segment.texts behind ++ rest) fresh before ∧
      Leads d after rest between behind := by
  induction before generalizing fresh with
  | nil =>
    constructor
    · intro h
      exact ⟨fresh, .nil, h⟩
    · rintro ⟨_, h, h'⟩
      cases h
      exact h'
  | cons s before ih =>
    constructor
    · intro h
      cases h with
      | cons hscan h =>
        obtain ⟨between, hbefore, hbehind⟩ := ih.1 h
        refine ⟨between, .cons ?_ hbefore, hbehind⟩
        simpa using hscan
    · rintro ⟨between, h, hbehind⟩
      cases h with
      | cons hscan h =>
        refine .cons ?_ (ih.2 ⟨between, h, hbehind⟩)
        simpa using hscan

/-- The last segment of a row may stand in front of the rest. -/
theorem endsBefore_last (h : Leads d after rest fresh (before ++ [s])) : s.EndsBefore d rest := by
  obtain ⟨between, -, hlast⟩ := append_iff.1 h
  cases hlast with
  | cons hscan _ => exact (scan_bounded _ _ _ (by simpa using hscan)).1

/-- A row of segments leads to every rest that is alike. What reaches to the end of its line asks
for the first character behind it. -/
theorem of_alike (halike : Alike d rest rest')
    (hlast : ∀ s ∈ segments.getLast?, s.role = .lineComment ∨ s.role = .directive →
      rest.head? = rest'.head?)
    (h : Leads d after rest fresh segments) : Leads d after rest' fresh segments := by
  induction h with
  | nil => exact .nil
  | @cons fresh c tail role segments hscan h ih =>
    refine .cons ?_ (ih fun s hs => ?_)
    · obtain ⟨hends, hother⟩ := scan_bounded _ _ _ hscan
      refine hother _ (hends.of_alike (halike.append _) fun hrole => ?_)
      cases h with
      | nil => exact hlast _ rfl hrole
      | cons => rfl
    · refine hlast s ?_
      rw [List.getLast?_cons, Option.mem_def.1 hs]
      rfl

end Leads

end

end ForeignModule
