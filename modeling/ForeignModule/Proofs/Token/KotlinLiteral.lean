import ForeignModule.Proofs.Token.Outline

/-!
# String literals of Kotlin

A string in quotes may hold templates, and the code in these may hold further literals (`Inside`);
a string in three quotes may end in quotes of its own. `outline_literal` says which of them are
one token with their content: those without a quote in a template, and those that do not end in a
quote. Every other one is read as something else (`head?_outlineFrom_of_not_flat`).
-/

namespace ForeignModule

open Source Token

/-- What is open around a place in a literal. -/
inductive Frame where
  | literal
  /-- The braces of a template, or braces in its code. -/
  | braces
deriving DecidableEq, Repr

/-- Where these are open, innermost first, the text goes on up to the quote that closes the outermost
literal. `nests` says whether quotes may stand in templates. -/
inductive Inside (nests : Prop) : List Frame → List Char → Prop where
  | nil : Inside nests [.literal] []
  | escape (c : Char) {frame : Frame} {frames : List Frame} {text : List Char}
      (h : Inside nests (frame :: frames) text) : Inside nests (frame :: frames) ('\\' :: c :: text)
  | plain {c : Char} {frames : List Frame} {text : List Char} (hquote : c ≠ '"') (hback : c ≠ '\\')
      (hdollar : c = '$' → text.head? ≠ some '\x7b')
      (h : Inside nests (.literal :: frames) text) : Inside nests (.literal :: frames) (c :: text)
  | template {frames : List Frame} {text : List Char}
      (h : Inside nests (.braces :: .literal :: frames) text) :
      Inside nests (.literal :: frames) ('$' :: '\x7b' :: text)
  | closeLiteral {frames : List Frame} {text : List Char} (hnests : nests)
      (h : Inside nests (.braces :: frames) text) :
      Inside nests (.literal :: .braces :: frames) ('"' :: text)
  | code {c : Char} {frames : List Frame} {text : List Char}
      (hc : c ≠ '"' ∧ c ≠ '\\' ∧ c ≠ '\x7b' ∧ c ≠ '\x7d')
      (h : Inside nests (.braces :: frames) text) : Inside nests (.braces :: frames) (c :: text)
  | character {c : Char} {frames : List Frame} {text : List Char} (hback : c ≠ '\\')
      (hquote : c = '"' → nests) (h : Inside nests (.braces :: frames) text) :
      Inside nests (.braces :: frames) ('\'' :: c :: '\'' :: text)
  | openBrace {frames : List Frame} {text : List Char}
      (h : Inside nests (.braces :: .braces :: frames) text) :
      Inside nests (.braces :: frames) ('\x7b' :: text)
  | closeBrace {frame : Frame} {frames : List Frame} {text : List Char}
      (h : Inside nests (frame :: frames) text) :
      Inside nests (.braces :: frame :: frames) ('\x7d' :: text)
  | openLiteral {frames : List Frame} {text : List Char} (hnests : nests)
      (h : Inside nests (.literal :: .braces :: frames) text) :
      Inside nests (.braces :: frames) ('"' :: text)
  | triple {content : List Char} {frames : List Frame} {text : List Char} (hnests : nests)
      (hcontent : ¬ ['"', '"', '"'] <:+: content) (h : Inside nests (.braces :: frames) text) :
      Inside nests (.braces :: frames) ('"' :: '"' :: '"' :: (content ++ '"' :: '"' :: '"' :: text))

/-- Characters that mean nothing else stand for themselves. -/
theorem Inside.append_plain {nests : Prop} {frames : List Frame} {text rest : List Char}
    (htext : text.all (· ∉ ['"', '\\', '$']) = true) (h : Inside nests (.literal :: frames) rest) :
    Inside nests (.literal :: frames) (text ++ rest) := by
  induction text with
  | nil => exact h
  | cons c text ih =>
    simp only [List.all_cons, Bool.and_eq_true, decide_eq_true_eq, List.mem_cons, not_or] at htext
    obtain ⟨⟨hquote, hback, hdollar, -⟩, htext⟩ := htext
    exact .plain hquote hback (fun hc => absurd hc hdollar) (ih (by simpa using htext))

/-- A string literal of Kotlin. -/
inductive KotlinString where
  | quoted (content : List Char) (h : Inside True [.literal] content)
  | triple (content : List Char) (h : ¬ ['"', '"', '"'] <:+: content)

namespace KotlinString

/-- The text between the delimiters. -/
def content : KotlinString → List Char
  | quoted content _ | triple content _ => content

/-- The literal as it is written. -/
def written : KotlinString → List Char
  | quoted content _ => '"' :: (content ++ ['"'])
  | triple content _ => '"' :: '"' :: '"' :: (content ++ ['"', '"', '"'])

/-- No quote stands in a template, nor right before the closing quotes. -/
def Flat : KotlinString → Prop
  | quoted content _ => Inside False [.literal] content
  | triple content _ => content.getLast? ≠ some '"'

end KotlinString

section

variable {frames : List Frame} {text content rest back : List Char} {fresh : Bool}

/-! ## Where the literal ends -/

theorem Source.Quoted.of_cons {quote c : Char} (h : Quoted quote (c :: text)) (hc : c ≠ '\\') :
    c ≠ quote ∧ Quoted quote text := by
  cases h with
  | escape => exact absurd rfl hc
  | plain _ hquote h => exact ⟨hquote, h⟩

theorem Source.Quoted.of_escape {quote c : Char} (h : Quoted quote ('\\' :: c :: text)) :
    Quoted quote text := by
  cases h with
  | escape _ h => exact h
  | plain hc => exact absurd rfl hc

/-- Without quotes in templates the first quote that no backslash takes is the closing one. -/
theorem Inside.quoted (h : Inside False frames text) : Quoted '"' text := by
  induction h with
  | nil => exact .nil
  | escape c _ ih => exact .escape c ih
  | plain hquote hback _ _ ih => exact .plain hback hquote ih
  | template _ ih => exact .plain (by decide) (by decide) (.plain (by decide) (by decide) ih)
  | code hc _ ih => exact .plain hc.2.1 hc.1 ih
  | character hback hquote _ ih =>
    exact .plain (by decide) (by decide) (.plain hback hquote (.plain (by decide) (by decide) ih))
  | openBrace _ ih | closeBrace _ ih => exact .plain (by decide) (by decide) ih
  | closeLiteral hnests | openLiteral hnests | triple hnests => exact hnests.elim

/-- If it is, no quote stands in a template. -/
theorem Inside.flat_of_quoted (h : Inside True frames text) (hquoted : Quoted '"' text) :
    Inside False frames text := by
  induction h with
  | nil => exact .nil
  | escape c _ ih => exact .escape c (ih hquoted.of_escape)
  | plain hquote hback hdollar _ ih =>
    exact .plain hquote hback hdollar (ih (hquoted.of_cons hback).2)
  | template _ ih =>
    have hbrace := (hquoted.of_cons (by decide)).2
    exact .template (ih (hbrace.of_cons (by decide)).2)
  | code hc _ ih => exact .code hc (ih (hquoted.of_cons hc.2.1).2)
  | character hback _ _ ih =>
    have hcharacter := (hquoted.of_cons (by decide)).2
    obtain ⟨hquote, hclosing⟩ := hcharacter.of_cons hback
    exact .character hback hquote (ih (hclosing.of_cons (by decide)).2)
  | openBrace _ ih => exact .openBrace (ih (hquoted.of_cons (by decide)).2)
  | closeBrace _ ih => exact .closeBrace (ih (hquoted.of_cons (by decide)).2)
  | closeLiteral | openLiteral | triple => exact absurd rfl (hquoted.of_cons (by decide)).1

/-- Without three quotes inside, the closing quotes are the first three in a row unless the content
ends in a quote. -/
theorem unbroken_quotes_iff (h : ¬ ['"', '"', '"'] <:+: content) :
    Unbroken ['"', '"', '"'] content ↔ content.getLast? ≠ some '"' := by
  constructor
  · intro hunbroken hlast
    obtain ⟨front, rfl⟩ := List.getLast?_eq_some_iff.1 hlast
    have hback := hunbroken front ['"'] (by simp)
    cases hback
  · intro hlast front back hsplit
    rw [List.append_assoc] at hsplit
    rcases List.append_eq_append_iff.1 hsplit with ⟨more, rfl, hmore⟩ | ⟨more, rfl, hmore⟩
    · have hlength := congrArg List.length hmore
      simp only [List.length_append] at hlength
      exact List.length_eq_zero_iff.1 (by omega)
    · -- Three quotes that start in the content reach its end, or stand in it.
      simp only [List.cons_append, List.nil_append] at hmore
      match more with
      | [] => simpa using hmore
      | [a] =>
        obtain ⟨rfl, -⟩ := List.cons.inj hmore
        exact absurd (by simp) hlast
      | [a, b] =>
        simp only [List.cons_append, List.cons.injEq] at hmore
        obtain ⟨rfl, rfl, -⟩ := hmore
        exact absurd (by simp) hlast
      | a :: b :: c :: more =>
        simp only [List.cons_append, List.cons.injEq] at hmore
        obtain ⟨rfl, rfl, rfl, -⟩ := hmore
        exact absurd ⟨front, more, by simp⟩ h

/-! ## What is found at the quote -/

/-- A quote behind the text opens a literal, wherever that ends. -/
def OpensLiteral (front : List Char) : Prop := (Cut.ofSource .kotlin (front ++ ['"'])).text = front

/-- Up to the quote the text is cut alike before every literal. -/
theorem OpensLiteral.leads {front : List Char} (h : OpensLiteral front) :
    ∃ before fresh, front = Segment.texts before ∧
      ∀ inner, Leads .kotlin fresh ('"' :: inner) true before := by
  obtain ⟨fresh, rest, hsplit, hleads⟩ := Leads.of_go .kotlin true (front ++ ['"'])
  have htexts : Segment.texts (Cut.go .kotlin true 0 (front ++ ['"'])).segments = front := h
  rw [htexts] at hsplit
  obtain rfl := List.append_cancel_left hsplit
  refine ⟨_, fresh, htexts.symm, fun inner => ?_⟩
  have halike : Alike .kotlin ['"'] ('"' :: inner) := .known rfl
  exact hleads.of_alike halike fun _ _ _ => rfl

theorem scan_quote (rest : List Char) : scan .kotlin fresh '"' rest = scanString .kotlin rest := rfl

/-- One token is found, with the content. -/
theorem KotlinString.scan_written {l : KotlinString} (fresh : Bool) (hflat : l.Flat)
    (hback : back.head? ≠ some '"') : ∃ tail, l.written = '"' :: tail ∧ scan .kotlin fresh '"' (tail ++ back)
      = .ok (.token (.string (.ofList l.content)), tail.length) := by
  cases l with
  | quoted content h =>
    refine ⟨_, rfl, ?_⟩
    have hquoted := Inside.quoted hflat
    -- A content does not start with a quote, so that three of them do not open the literal.
    have hsingle : ¬ (Dialect.kotlin = .kotlin ∧ ∃ inner, content ++ ['"'] ++ back = '"' :: '"' :: inner) := by
      rintro ⟨-, inner, hinner⟩
      cases content with
      | nil =>
        have hrest : back = '"' :: inner := (List.cons.inj hinner).2
        exact hback (by rw [hrest]; rfl)
      | cons c content =>
        obtain ⟨rfl, -⟩ := List.cons.inj hinner
        exact (hquoted.of_cons (by decide)).1 rfl
    rw [scan_quote, scanString_single hsingle, scanQuoted, quoted?_append (by decide) hquoted]
    simp [KotlinString.content]
  | triple content h =>
    refine ⟨_, rfl, ?_⟩
    have hcontent := before?_append (by simp) ((unbroken_quotes_iff h).2 hflat) back
    show scanTriple (content ++ ['"', '"', '"'] ++ back) = _
    rw [scanTriple, hcontent]
    simp [KotlinString.content]

theorem string_ofList_inj {n m : Nat} {left right : List Char}
    (h : (.ok (.token (.string (.ofList left)), n) : Except Unclosed Reach)
      = .ok (.token (.string (.ofList right)), m)) : left = right := by
  simpa using congrArg String.toList (Kind.string.inj (Role.token.inj (Prod.mk.inj (Except.ok.inj h)).1))

/-- Only of a flat literal the token is the content. -/
theorem KotlinString.flat_of_scan {l : KotlinString} {tail : List Char} {n : Nat}
    (hwritten : l.written = '"' :: tail)
    (hscan : scan .kotlin fresh '"' (tail ++ back) = .ok (.token (.string (.ofList l.content)), n)) :
    l.Flat := by
  rw [scan_quote] at hscan
  cases l with
  | quoted content h =>
    obtain rfl := (List.cons.inj hwritten).2
    by_cases hempty : content = []
    · subst hempty
      exact Inside.nil
    have hsingle : ¬ (Dialect.kotlin = .kotlin ∧ ∃ inner, content ++ ['"'] ++ back = '"' :: '"' :: inner) := by
      rintro ⟨-, inner, hinner⟩
      obtain ⟨c, content, rfl⟩ := List.exists_cons_of_ne_nil hempty
      obtain ⟨rfl, -⟩ := List.cons.inj hinner
      cases h with
      | plain hquote => exact hquote rfl
    rw [scanString_single hsingle, scanQuoted] at hscan
    split at hscan
    · rename_i found hfound
      obtain rfl := string_ofList_inj hscan
      exact h.flat_of_quoted (quoted?_eq_some hfound).1
    · cases hscan
  | triple content h =>
    obtain rfl := (List.cons.inj hwritten).2
    have htriple : scanTriple (content ++ ['"', '"', '"'] ++ back)
        = .ok (.token (.string (.ofList content)), n) := hscan
    unfold scanTriple at htriple
    split at htriple
    · rename_i found hfound
      obtain rfl := string_ofList_inj htriple
      exact (unbroken_quotes_iff h).1 (before?_eq_some hfound).1
    · cases htriple

/-! ## Between other tokens -/

theorem exists_of_scanString {role : Role} {n : Nat} (h : scanString .kotlin rest = .ok (role, n)) :
    ∃ content, role = .token (.string content) := by
  unfold scanString at h
  split at h
  · split at h
    · exact ⟨_, (Prod.mk.inj (Except.ok.inj h)).1.symm⟩
    · cases h
  · unfold scanQuoted at h
    split at h
    · exact ⟨_, (Prod.mk.inj (Except.ok.inj h)).1.symm⟩
    · cases h

theorem outlineFrom_flat {l : KotlinString} (hflat : l.Flat) (hback : back.head? ≠ some '"') :
    outlineFrom .kotlin fresh (l.written ++ back)
      = (⟨.string (.ofList l.content), fresh || l.written.any endsLine⟩ :: ·)
        <$> outlineFrom .kotlin false back := by
  obtain ⟨tail, hwritten, hscan⟩ := KotlinString.scan_written fresh hflat hback
  rw [hwritten]
  exact outlineFrom_of_scan hscan

theorem head?_outlineFrom_of_not_flat {l : KotlinString} {outlines : List Outline} (hflat : ¬ l.Flat)
    (h : outlineFrom .kotlin fresh (l.written ++ back) = .ok outlines) :
    outlines.head?.map Outline.kind ≠ some (.string (.ofList l.content)) := by
  obtain ⟨tail, hwritten⟩ : ∃ tail, l.written = '"' :: tail := by
    cases l <;> exact ⟨_, rfl⟩
  rw [hwritten, List.cons_append] at h
  cases hscan : scan .kotlin fresh '"' (tail ++ back) with
  | error what =>
    rw [outlineFrom, Cut.go, hscan] at h
    cases h
  | ok reach =>
    obtain ⟨role, n⟩ := reach
    obtain ⟨content, rfl⟩ := exists_of_scanString hscan
    obtain ⟨text, rest, hsplit, rfl⟩ := exists_of_scan hscan
    rw [hsplit] at hscan h
    rw [← List.cons_append, outlineFrom_of_scan hscan] at h
    intro hhead
    simp only [Segment.leavesFresh] at h
    cases hrest : outlineFrom .kotlin false rest with
    | error what =>
      rw [hrest] at h
      cases h
    | ok behind =>
      rw [hrest] at h
      obtain rfl := Except.ok.inj h
      have hcontent : content = .ofList l.content := Kind.string.inj (Option.some.inj hhead)
      exact hflat (KotlinString.flat_of_scan hwritten (hcontent ▸ hsplit ▸ hscan))

/-- Where a quote opens a literal, a flat one is a token with its content, and what stands behind it
is read as it is. Any other literal is not: the token in its place has another content. -/
theorem outline_literal {front : List Char} (hfront : OpensLiteral front) :
    ∃ before fresh, ∀ (l : KotlinString) (back : List Char), back.head? ≠ some '"' →
      (l.Flat → outline .kotlin (.ofList (front ++ l.written ++ back))
        = (before ++ ⟨.string (.ofList l.content), fresh || l.written.any endsLine⟩ :: ·)
          <$> outlineFrom .kotlin false back) ∧
      (¬ l.Flat → ∀ outlines, outline .kotlin (.ofList (front ++ l.written ++ back)) = .ok outlines →
        outlines[before.length]?.map Outline.kind ≠ some (.string (.ofList l.content))) := by
  obtain ⟨segments, fresh, rfl, hleads⟩ := hfront.leads
  refine ⟨Segment.outlines true segments, fresh, fun l back hback => ?_⟩
  -- What stands in front is the same before every literal.
  have hread : outline .kotlin (.ofList (Segment.texts segments ++ l.written ++ back))
      = (Segment.outlines true segments ++ ·) <$> outlineFrom .kotlin fresh (l.written ++ back) := by
    rw [outline_eq, String.toList_ofList, List.append_assoc]
    cases l <;> exact (hleads _).outline_eq
  rw [hread]
  constructor
  · intro hflat
    rw [outlineFrom_flat hflat hback, Functor.map_map]
  · intro hflat outlines houtlines
    cases hrest : outlineFrom .kotlin fresh (l.written ++ back) with
    | error what =>
      rw [hrest] at houtlines
      cases houtlines
    | ok behind =>
      rw [hrest] at houtlines
      obtain rfl := Except.ok.inj houtlines
      rw [List.getElem?_append_right (Nat.le_refl _), Nat.sub_self, ← List.head?_eq_getElem?]
      exact head?_outlineFrom_of_not_flat hflat hrest

end

end ForeignModule
