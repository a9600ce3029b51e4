import ForeignModule.Proofs.Token.Outline

/-!
# A comment is a blank

A comment in place of a blank, or in front of a line end, leaves the tokens what they are. Only the
places change, so this is said of the outline of a source (`outline_comments`).

Most of what may stand in front of the blank asks no more than that a blank follows
(`Leads.replace_blank`). Two kinds of segments reach to the end of their line and take the new
comment in (`Leads.extend_last`): a comment up to that end, and a preprocessor line. The latter goes
on behind the line end if a backslash stands before it, be that the last character of a comment.
-/

namespace ForeignModule

open Source Token

/-- Between the two texts stands a blank that belongs to no token, comment or preprocessor line. -/
def BlankAt (d : Dialect) (front : List Char) (c : Char) (back : List Char) : Prop :=
  ∃ before left right,
    before ++ [⟨.blank, left ++ c :: right⟩] <+: (Cut.ofSource d (front ++ c :: back)).segments ∧
      front = Segment.texts before ++ left

/-- A preprocessor line ends between the two texts. -/
def DirectiveEndsAt (d : Dialect) (front back : List Char) : Prop :=
  ∃ before text, before ++ [⟨.directive, text⟩] <+: (Cut.ofSource d (front ++ back)).segments ∧
    front = Segment.texts before ++ text

/-- A comment with its opening and its closing, in the dialects where comments nest together with
those inside it. -/
def IsComment (d : Dialect) (comment : List Char) : Prop :=
  ∃ text, comment = '/' :: '*' :: text ∧ Closes (d != .c) 0 text

section

variable {d : Dialect} {fresh after : Bool} {c : Char} {role : Role}
  {front back left rest text more : List Char} {before : List Segment}

/-- The segments in front lead to the row of blanks. -/
theorem BlankAt.leads (h : BlankAt d front c back) : ∃ before left after,
    front = Segment.texts before ++ left ∧ (∀ a ∈ left, isBlank a = true) ∧ isBlank c = true ∧
      Leads d after (left ++ c :: back) true before := by
  obtain ⟨before, left, right, ⟨behind, hcut⟩, rfl⟩ := h
  rw [List.append_assoc] at hcut
  obtain ⟨after, rest, hsplit, hleads, hbehind⟩ := Leads.of_segments hcut.symm
  rw [List.append_assoc] at hsplit
  obtain rfl := List.append_cancel_left hsplit
  have hfirst : (Cut.go d after 0 (left ++ c :: back)).segments
      = [⟨.blank, left ++ c :: right⟩] ++ behind := hbehind
  obtain ⟨_, _, -, hblanks, -⟩ := Leads.of_segments hfirst
  have hall : ∀ a ∈ left ++ c :: right, isBlank a = true := by
    generalize left ++ c :: right = blanks at hblanks
    cases hblanks with
    | cons hscan _ => exact isBlank_of_scan hscan
  exact ⟨before, left, after, rfl, fun a ha => hall a (List.mem_append_left _ ha),
    hall c (by simp), hleads⟩

/-- Between blanks a comment brings no token and ends no line. -/
theorem outlineFrom_comment {comment : List Char} (hc : c = ' ' ∨ c = '\t')
    (hcomment : IsComment d comment) (hline : ∀ a ∈ comment, endsLine a = false) :
    outlineFrom d fresh (' ' :: (comment ++ ' ' :: back)) = outlineFrom d fresh (c :: back) := by
  obtain ⟨text, rfl, hcloses⟩ := hcomment
  have htext : text.any endsLine = false := by
    simpa using fun a ha => hline a (List.mem_cons_of_mem _ (List.mem_cons_of_mem _ ha))
  rw [outlineFrom_blank rfl, outlineFrom_blockComment hcloses, htext, outlineFrom_blank rfl]
  rcases hc with rfl | rfl <;> simp [outlineFrom_blank, isBlank, endsLine]

/-- Nor does one that goes up to the end of its line, in front of that. -/
theorem outlineFrom_lineEnd (hc : endsLine c = true) (htext : ∀ a ∈ text, endsLine a = false) :
    outlineFrom d fresh (' ' :: '/' :: '/' :: text ++ c :: back)
      = outlineFrom d fresh (c :: back) := by
  rw [List.cons_append, outlineFrom_blank rfl, outlineFrom_lineComment htext (by simpa using hc)]
  simp [endsLine]

/-- What reaches to the end of its line takes more in that ends no line. -/
theorem scan_append (hscan : scan d fresh c (text ++ rest) = .ok (role, text.length))
    (hrole : role = .lineComment ∨ role = .directive) (hline : ∀ a ∈ more, endsLine a = false)
    (hends : ∀ a ∈ rest.head?, endsLine a = true)
    (hlast : role = .directive → more.getLast? ≠ some '\\') (hne : more ≠ []) :
    scan d fresh c (text ++ more ++ rest) = .ok (role, (text ++ more).length) := by
  rcases hrole with rfl | rfl
  · obtain ⟨rfl, hhead⟩ := lineComment_of_scan hscan
    obtain ⟨inner, hinner⟩ := List.head?_eq_some_iff.1 hhead
    cases text with
    | nil =>
      -- The second slash belongs to the comment.
      rw [List.nil_append] at hinner
      exact absurd (hends '/' (by rw [hinner]; rfl)) (by decide)
    | cons a text =>
      obtain rfl : a = '/' := (List.cons.inj hinner).1
      rw [List.cons_append, scan_lineComment, ← List.cons_append] at hscan
      obtain ⟨-, hlength⟩ := Prod.mk.inj (Except.ok.inj hscan)
      obtain ⟨hall, -⟩ := length_takeWhile_eq_iff.1 hlength
      have hlength' : (('/' :: text ++ more ++ rest).takeWhile (!endsLine ·)).length
          = ('/' :: text ++ more).length := by
        refine length_takeWhile_eq_iff.2 ⟨fun b hb => ?_, by simpa using hends⟩
        rcases List.mem_append.1 hb with hb | hb
        · exact hall b hb
        · simp [hline b hb]
      rw [List.cons_append, List.cons_append, scan_lineComment, ← List.cons_append,
        ← List.cons_append, hlength']
  · obtain ⟨rfl, rfl, rfl⟩ := directive_of_scan hscan
    have htext : DirectiveLine rest text := (scan_bounded _ _ _ hscan).1
    have hmore : DirectiveLine rest more := .of_forall hline (hlast rfl) hends
    have hhead : ∀ a ∈ (more ++ rest).head?, endsLine a = false := by
      obtain ⟨b, more, rfl⟩ := List.exists_cons_of_ne_nil hne
      simpa using hline b List.mem_cons_self
    rw [scan_directive, directiveLength_of_line (htext.append hmore (.inl hhead))]

/-- Does the segment reach to the end of its line? -/
def ReachesLineEnd (s : Segment) : Prop := s.role = .lineComment ∨ s.role = .directive

theorem Leads.endsLine_of_last {s : Segment} (h : Leads d after rest fresh (before ++ [s]))
    (hs : ReachesLineEnd s) : ∀ a ∈ rest.head?, endsLine a = true := by
  have hends := h.endsBefore_last
  obtain ⟨role, text⟩ := s
  rcases hs with rfl | rfl
  · exact hends
  · exact DirectiveLine.ends hends

/-- A blank is as good as what has the same outlines and starts with a blank, unless a segment in
front of it reaches to the end of its line. -/
theorem Leads.replace_blank (h : Leads d after (left ++ c :: back) true before)
    (hc : isBlank c = true) (hleft : ∀ a ∈ left, isBlank a = true)
    (hlast : ∀ s ∈ before.getLast?, ReachesLineEnd s → left ≠ [])
    (hsame : ∀ fresh, outlineFrom d fresh (' ' :: more) = outlineFrom d fresh (c :: back)) :
    outlineFrom d true (Segment.texts before ++ (left ++ ' ' :: more))
      = outlineFrom d true (Segment.texts before ++ (left ++ c :: back)) := by
  have halike : Alike d (left ++ c :: back) (left ++ ' ' :: more) := .append (.blank hc rfl) left
  have hhead : ∀ s ∈ before.getLast?, ReachesLineEnd s →
      (left ++ c :: back).head? = (left ++ ' ' :: more).head? := by
    intro s hs hreaches
    obtain ⟨a, left, rfl⟩ := List.exists_cons_of_ne_nil (hlast s hs hreaches)
    rfl
  rw [(h.of_alike halike hhead).outline_eq, h.outline_eq, outlineFrom_blanks hleft,
    outlineFrom_blanks hleft, hsame]

/-- A segment that reaches to the end of its line takes in a comment in front of that. -/
theorem Leads.extend_last {s : Segment} (h : Leads d after rest true (before ++ [s]))
    (hs : ReachesLineEnd s) (hline : ∀ a ∈ more, endsLine a = false)
    (hlast : s.role = .directive → more.getLast? ≠ some '\\') (hne : more ≠ []) :
    outlineFrom d true (Segment.texts (before ++ [s]) ++ (more ++ rest))
      = outlineFrom d true (Segment.texts (before ++ [s]) ++ rest) := by
  have hends := h.endsLine_of_last hs
  obtain ⟨between, hbefore, hlast'⟩ := Leads.append_iff.1 h
  cases hlast' with
  | @cons _ c tail role _ hscan _ =>
    have hrole : ∀ kind, role ≠ .token kind := by
      rintro kind rfl
      rcases hs with hs | hs <;> cases hs
    rw [Segment.texts_nil, List.nil_append] at hscan
    have hscan' := scan_append hscan hs hline hends hlast hne
    -- What stands in front sees the same first character as before.
    have hknown : looksBehind d c = false := by
      rcases hs with rfl | rfl
      · obtain ⟨rfl, -⟩ := lineComment_of_scan hscan
        cases d <;> rfl
      · obtain ⟨rfl, -, rfl⟩ := directive_of_scan hscan
        rfl
    have halike : Alike d (c :: tail ++ rest) (c :: (tail ++ more) ++ rest) := .known hknown
    have hfront : Leads d between (c :: tail ++ rest) true before := by simpa using hbefore
    have hfront' := hfront.of_alike halike fun _ _ _ => rfl
    have hany : (c :: (tail ++ more)).any endsLine = (c :: tail).any endsLine := by
      have hnone : more.any endsLine = false := by simpa using hline
      simp [hnone]
    have htexts : ∀ text, Segment.texts (before ++ [⟨role, c :: tail⟩]) ++ text
        = Segment.texts before ++ (c :: tail ++ text) := by simp
    have hmore : c :: tail ++ (more ++ rest) = c :: (tail ++ more) ++ rest := by simp
    rw [htexts, htexts, hmore, hfront.outline_eq, hfront'.outline_eq,
      outlineFrom_of_skipped hrole hscan, outlineFrom_of_skipped hrole hscan', hany]

/-- A comment in place of a blank. -/
theorem BlankAt.replace_comment {comment : List Char} (h : BlankAt d front c back)
    (hc : c = ' ' ∨ c = '\t') (hcomment : IsComment d comment)
    (hline : ∀ a ∈ comment, endsLine a = false) :
    outlineFrom d true (front ++ ' ' :: (comment ++ ' ' :: back))
      = outlineFrom d true (front ++ c :: back) := by
  obtain ⟨before, left, after, rfl, hleft, hblank, hleads⟩ := h.leads
  have hlast : ∀ s ∈ before.getLast?, ReachesLineEnd s → left ≠ [] := by
    rintro s hs hreaches rfl
    obtain ⟨init, rfl⟩ := List.getLast?_eq_some_iff.1 hs
    have hends := hleads.endsLine_of_last hreaches c rfl
    rcases hc with rfl | rfl <;> cases hends
  rw [List.append_assoc, List.append_assoc]
  exact hleads.replace_blank hblank hleft hlast fun _ =>
    outlineFrom_comment hc hcomment hline

/-- A comment in front of a line end. -/
theorem BlankAt.replace_lineEnd (h : BlankAt d front c back) (hc : endsLine c = true)
    (htext : ∀ a ∈ text, endsLine a = false)
    (hdirective : DirectiveEndsAt d front (c :: back) → text.getLast? ≠ some '\\') :
    outlineFrom d true (front ++ ' ' :: ('/' :: '/' :: text ++ c :: back))
      = outlineFrom d true (front ++ c :: back) := by
  obtain ⟨before, left, after, rfl, hleft, hblank, hleads⟩ := h.leads
  by_cases hlast : left = [] ∧ ∃ init s, before = init ++ [s] ∧ ReachesLineEnd s
  · -- The segment in front ends right here, and takes the comment in.
    obtain ⟨rfl, init, s, rfl, hreaches⟩ := hlast
    rw [List.append_nil]
    have hline : ∀ a ∈ ' ' :: '/' :: '/' :: text, endsLine a = false := by simpa [endsLine] using htext
    refine hleads.extend_last hreaches hline ?_ (by simp)
    · intro hrole
      have hend : DirectiveEndsAt d (Segment.texts (init ++ [s]) ++ []) (c :: back) := by
        obtain ⟨role, word⟩ := s
        obtain rfl : role = .directive := hrole
        refine ⟨init, word, ⟨(Cut.go d after 0 (c :: back)).segments, ?_⟩, by simp⟩
        rw [List.append_nil]
        exact hleads.segments_eq.symm
      have hback := hdirective hend
      cases text with
      | nil => simp
      | cons a text => simpa using hback
  · rw [List.append_assoc, List.append_assoc]
    refine hleads.replace_blank hblank hleft ?_ fun _ => outlineFrom_lineEnd hc htext
    intro s hs hreaches hnil
    obtain ⟨init, hinit⟩ := List.getLast?_eq_some_iff.1 hs
    exact hlast ⟨hnil, init, s, hinit, hreaches⟩

/-- A comment is a blank: in place of a space or a tab that lies between segments, between spaces,
and in front of a line end that does. Tokens stay what they are, and start their lines as before;
what is left open stays so. In front of the line end of a preprocessor line the comment must not
carry that line on. -/
theorem outline_comments (d : Dialect) (front back : List Char) (c : Char)
    (h : BlankAt d front c back) :
    (c = ' ' ∨ c = '\t' → ∀ comment, IsComment d comment → (∀ a ∈ comment, endsLine a = false) →
      outline d (.ofList (front ++ ' ' :: (comment ++ ' ' :: back)))
        = outline d (.ofList (front ++ c :: back))) ∧
    (endsLine c = true → ∀ text, (∀ a ∈ text, endsLine a = false) →
      (DirectiveEndsAt d front (c :: back) → text.getLast? ≠ some '\\') →
      outline d (.ofList (front ++ ' ' :: ('/' :: '/' :: text ++ c :: back)))
        = outline d (.ofList (front ++ c :: back))) := by
  simp only [outline_eq, String.toList_ofList]
  exact ⟨fun hc _ hcomment hline => h.replace_comment hc hcomment hline,
    fun hc _ htext hdirective => h.replace_lineEnd hc htext hdirective⟩

/-- A comment with another one inside takes the place of a blank in Rust, and a line of the
preprocessor takes one in at its end. -/
theorem outline_comments_nested :
    outline .rust "fn /* a /*/ b */ c */ f()" = outline .rust "fn f()" ∧
    outline .c "#define A // x\nint f;" = outline .c "#define A\nint f;" := by
  have hrust : BlankAt .rust "fn".toList ' ' "f()".toList :=
    ⟨[⟨.token (.identifier "fn"), "fn".toList⟩], [], [], by decide +kernel, rfl⟩
  have hc : BlankAt .c "#define A".toList '\n' "int f;".toList :=
    ⟨[⟨.directive, "#define A".toList⟩], [], [], by decide +kernel, rfl⟩
  have hcomment : IsComment .rust "/* a /*/ b */ c */".toList :=
    ⟨_, rfl, Source.closes_iff.2 (by decide +kernel)⟩
  have hline : ∀ text : List Char, text.any endsLine = false → ∀ a ∈ text, endsLine a = false := by simp
  exact ⟨(outline_comments _ _ _ _ hrust).1 (.inl rfl) _ hcomment (hline _ (by decide)),
    (outline_comments _ _ _ _ hc).2 rfl " x".toList (hline _ (by decide)) (fun _ => by decide)⟩

/-- A backslash at the end of the comment carries the line of the preprocessor on: the declaration
behind it is no longer read. -/
theorem outline_comment_carriesOn :
    BlankAt .c "#define A".toList '\n' "int f;".toList ∧ (∀ a ∈ " x\\".toList, endsLine a = false) ∧
    outline .c (.ofList ("#define A".toList ++ ' ' :: ('/' :: '/' :: " x\\".toList ++ '\n' :: "int f;".toList)))
      ≠ outline .c (.ofList ("#define A".toList ++ '\n' :: "int f;".toList)) := by
  refine ⟨⟨[⟨.directive, "#define A".toList⟩], [], [], by decide +kernel, rfl⟩, ?_, by decide +kernel⟩
  simp [endsLine]

end

end ForeignModule
