import ForeignModule.Proofs.Signature.Placeless
import ForeignModule.Proofs.Token.Comments

/-!
# Comments on preprocessor lines

A preprocessor line knows of no comments. It takes in what a comment holds up to the first line end
that no backslash stands in front of, and what is left of the comment is read as source. So a
comment that goes on over line ends is a blank only where that brings no token (`Quiet`,
`ofC_directiveComment`).
-/

namespace ForeignModule

open Source Token

/-- In front of the rest, and on a fresh line, these are blanks, comments and preprocessor lines. -/
inductive Quiet (rest : List Char) : List Char → Prop where
  | nil : Quiet rest []
  | append {text more : List Char} (h : Skipped True .c text (more ++ rest)) (hmore : Quiet rest more) :
      Quiet rest (text ++ more)

section

variable {front pre comment line held opened rest rest' text more : List Char} {a b : Char}

/-- Blanks, comments and preprocessor lines leave the line fresh and bring no token. -/
theorem Source.Skipped.outlineFrom (h : Skipped True .c text rest) :
    outlineFrom .c true (text ++ rest) = outlineFrom .c true rest := by
  cases h with
  | blank hall => rw [outlineFrom_blanks hall, Bool.true_or]
  | lineComment hall hend => exact outlineFrom_lineComment hall hend
  | blockComment form hcontent =>
    cases form
    rename_i content
    have hcomment : outlineFrom .c true _ = outlineFrom .c (true || _) rest :=
      outlineFrom_blockComment hcontent
    simpa using hcomment
  | directive _ hline =>
    have hscan : scan .c true '#' (_ ++ rest) = .ok (.directive, _) :=
      (scan_directive _).trans (congrArg _ (congrArg _ (directiveLength_of_line hline)))
    exact outlineFrom_of_skipped (by simp) hscan

theorem Quiet.outlineFrom (h : Quiet rest text) :
    outlineFrom .c true (text ++ rest) = outlineFrom .c true rest := by
  induction h with
  | nil => rfl
  | append h _ ih => rw [List.append_assoc, h.outlineFrom, ih]

/-- What a preprocessor line takes in and what it leaves over, and the segments in front of it. -/
theorem directiveLine_of_segments {before : List Segment} {source : List Char}
    (h : before ++ [⟨.directive, '#' :: text⟩] <+: (Cut.ofSource .c source).segments) :
    ∃ rest, source = Segment.texts before ++ ('#' :: text ++ rest) ∧ DirectiveLine rest text ∧
      Leads .c true ('#' :: text ++ rest) true before := by
  obtain ⟨behind, hcut⟩ := h
  obtain ⟨after, rest, rfl, hleads, -⟩ := Leads.of_segments hcut.symm
  refine ⟨rest, by simp, hleads.endsBefore_last, ?_⟩
  obtain ⟨between, hbefore, hlast⟩ := Leads.append_iff.1 hleads
  cases hlast with
  | cons hscan _ =>
    obtain ⟨-, rfl, -⟩ := directive_of_scan hscan
    simpa using hbefore

/-- A comment that begins on a preprocessor line is a blank, if nothing is read of what the line
leaves over. `held` is what it takes in of the comment and of the line behind that, `opened` is the
rest of both, and with a blank in place of the comment the line goes up to `rest`. -/
theorem Signature.ofC_directiveComment {before : List Segment} {source source' : String}
    (hsource : source.toList = Segment.texts before ++ '#' :: (pre ++ (comment ++ (line ++ rest))))
    (hsource' : source'.toList = Segment.texts before ++ '#' :: (pre ++ ' ' :: (line ++ rest)))
    (hdirective : before ++ [⟨.directive, '#' :: (pre ++ held)⟩]
      <+: (Cut.ofSource .c source.toList).segments)
    (hcomment : IsComment .c comment) (hheld : held ≠ []) (hopened : comment ++ line = held ++ opened)
    (hline : DirectiveLine rest line) (hquiet : Quiet rest opened) :
    outline .c source = outline .c source' ∧ (ofC source).toOption = (ofC source').toOption := by
  suffices h : outline .c source = outline .c source' from ⟨h, ofC_of_outline h⟩
  obtain ⟨more, hsplit, hdirective, hleads⟩ := directiveLine_of_segments hdirective
  obtain rfl : more = opened ++ rest := by
    rw [hsource, ← List.append_assoc comment, hopened] at hsplit
    simpa using hsplit.symm
  -- The comment and what is held of it start with the same slash.
  obtain ⟨a, held, rfl⟩ := List.exists_cons_of_ne_nil hheld
  obtain ⟨text, rfl, -⟩ := hcomment
  obtain rfl : '/' = a := (List.cons.inj hopened).1
  have hblank : DirectiveLine rest (' ' :: line) := .plain rfl nofun hline
  have hdirective' : DirectiveLine rest (pre ++ ' ' :: line) :=
    hdirective.replace (by simp [endsLine]) hblank (.inl (by simp [endsLine]))
  have halike : Alike .c ('#' :: (pre ++ '/' :: held) ++ (opened ++ rest))
      ('#' :: (pre ++ ' ' :: line) ++ rest) := .known rfl
  have hleads' := hleads.of_alike halike fun _ _ _ => rfl
  have hmore : Segment.texts before ++ '#' :: (pre ++ ' ' :: (line ++ rest))
      = Segment.texts before ++ ('#' :: (pre ++ ' ' :: line) ++ rest) := by simp
  rw [outline_eq, outline_eq, hsplit, hsource', hmore, hleads.outline_eq, hleads'.outline_eq,
    (Skipped.directive trivial hdirective).outlineFrom,
    (Skipped.directive trivial hdirective').outlineFrom, hquiet.outlineFrom]

/-- What the line leaves over of this comment is a comment by itself. -/
theorem Signature.ofC_directiveComment_quiet :
    outline .c "#define SIZE 4 /* was\n/* three */\nint size(void);"
        = outline .c "#define SIZE 4  \nint size(void);" ∧
      (ofC "#define SIZE 4 /* was\n/* three */\nint size(void);").toOption
        = (ofC "#define SIZE 4  \nint size(void);").toOption := by
  have hsource : "#define SIZE 4 /* was\n/* three */\nint size(void);".toList
      = Segment.texts [] ++ '#' :: ("define SIZE 4 ".toList ++
        ("/* was\n/* three */".toList ++ ([] ++ "\nint size(void);".toList))) := rfl
  have hsource' : "#define SIZE 4  \nint size(void);".toList
      = Segment.texts [] ++ '#' :: ("define SIZE 4 ".toList ++
        ' ' :: ([] ++ "\nint size(void);".toList)) := rfl
  have hdirective : [] ++ [⟨.directive, '#' :: ("define SIZE 4 ".toList ++ "/* was".toList)⟩]
      <+: (Cut.ofSource .c "#define SIZE 4 /* was\n/* three */\nint size(void);".toList).segments := by
    decide +kernel
  have hcomment : IsComment .c "/* was\n/* three */".toList :=
    ⟨_, rfl, closes_iff.2 (by decide +kernel)⟩
  have hspilled : Closes false 0 (" three ".toList ++ ['*', '/']) := closes_iff.2 (by decide +kernel)
  have hquiet : Quiet "\nint size(void);".toList ("\n".toList ++ ("/* three */".toList ++ [])) :=
    .append (.blank (by simp [isBlank])) (.append (.blockComment (.comment .c) hspilled) .nil)
  exact ofC_directiveComment hsource hsource' hdirective hcomment (by decide) rfl
    (.nil (by simp [endsLine])) hquiet

/-- What it leaves over of this one is a declaration. -/
theorem Signature.ofC_directiveComment_leaks :
    [⟨.directive, "#define SIZE 4 /* was".toList⟩]
        <+: (Cut.ofSource .c "#define SIZE 4 /* was\nint size(void); */".toList).segments ∧
      IsComment .c "/* was\nint size(void); */".toList ∧
      (ofC "#define SIZE 4 /* was\nint size(void); */").toOption
        = some [⟨"size", "int", []⟩] ∧
      (ofC "#define SIZE 4  ").toOption = some [] :=
  ⟨by decide +kernel, ⟨_, rfl, closes_iff.2 (by decide +kernel)⟩, by decide +kernel, by decide +kernel⟩

end

end ForeignModule
