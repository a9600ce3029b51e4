import ForeignModule.Proofs.Token.Listing
import ForeignModule.Proofs.Token.Nesting
import ForeignModule.Token.Rendering

/-!
# Texts that are read as tokens

`Reads d fresh after text rest P` says that a text in front of `rest` is cut into segments of its own, and that
`P` holds for their tokens. `fresh` and `after` say whether the line is still without a token before and behind
the text. Words, numbers and blanks go on as long as they can, so what follows is part of the judgment.

* `Reads.append` puts two readings in a row, `Reads.tokenize` brings a whole text to its end;
* the readings of single words, signs and blanks are those of the C dialect, where nothing but the next character
  matters;
* `reads_render`: what is written of a list of words and stars is read as that list again.
-/

namespace ForeignModule.Token

open Source

/-- In front of `rest` the text is read as tokens for which `P` holds. -/
def Reads (d : Dialect) (fresh after : Bool) (text rest : List Char) (P : List Token → Prop) : Prop :=
  ∃ segments : List Segment,
    Cut.go d fresh 0 (text ++ rest) =
      { Cut.go d after 0 rest with segments := segments ++ (Cut.go d after 0 rest).segments } ∧
    ∀ p more, ∃ q tokens, ofSegments p fresh (segments ++ more) = tokens ++ ofSegments q after more ∧ P tokens

/-- A single token of a given kind. -/
def Single (k : Kind) (startsLine : Bool) (tokens : List Token) : Prop :=
  ∃ t : Of k, tokens = [t.1] ∧ t.1.startsLine = startsLine

section

variable {d : Dialect} {fresh after last : Bool} {text front rest : List Char} {P Q R : List Token → Prop}
  {c : Char} {k : Kind}

namespace Reads

/-- The characters of a segment are passed over. -/
theorem go_skip (d : Dialect) (fresh : Bool) (text rest : List Char) :
    Cut.go d fresh text.length (text ++ rest) = Cut.go d fresh 0 rest := by
  induction text with
  | nil => rfl
  | cons c tail ih => exact ih

theorem nil (h : P []) : Reads d fresh fresh [] rest P :=
  ⟨[], rfl, fun p _ => ⟨p, [], rfl, h⟩⟩

/-- Two texts in a row. -/
theorem append (h : Reads d fresh after front (text ++ rest) P) (h' : Reads d after last text rest Q)
    (hboth : ∀ x y, P x → Q y → R (x ++ y)) : Reads d fresh last (front ++ text) rest R := by
  obtain ⟨segments, hcut, htokens⟩ := h
  obtain ⟨segments', hcut', htokens'⟩ := h'
  refine ⟨segments ++ segments', ?_, fun p more => ?_⟩
  · rw [List.append_assoc, hcut, hcut']
    simp
  · obtain ⟨q, tokens, hread, hp⟩ := htokens p (segments' ++ more)
    obtain ⟨q', tokens', hread', hq⟩ := htokens' q more
    refine ⟨q', tokens ++ tokens', ?_, hboth _ _ hp hq⟩
    rw [List.append_assoc, hread, hread', List.append_assoc]

theorem mono (h : Reads d fresh after text rest P) (himp : ∀ tokens, P tokens → Q tokens) :
    Reads d fresh after text rest Q := by
  obtain ⟨segments, hcut, htokens⟩ := h
  refine ⟨segments, hcut, fun p more => ?_⟩
  obtain ⟨q, tokens, hread, hp⟩ := htokens p more
  exact ⟨q, tokens, hread, himp tokens hp⟩

/-- Whatever holds for each token holds for those of two texts in a row. -/
theorem append_forall {p : Token → Prop} (h : Reads d fresh after front (text ++ rest) fun ts => ∀ t ∈ ts, p t)
    (h' : Reads d after last text rest fun ts => ∀ t ∈ ts, p t) :
    Reads d fresh last (front ++ text) rest fun ts => ∀ t ∈ ts, p t :=
  h.append h' fun _ _ hx hy => List.forall_mem_append.2 ⟨hx, hy⟩

/-- One segment. -/
theorem segment {role : Role} (hscan : scan d fresh c (text ++ rest) = .ok (role, text.length))
    (h : ∀ p, P (ofSegments p fresh [⟨role, c :: text⟩])) :
    Reads d fresh (Segment.leavesFresh fresh ⟨role, c :: text⟩) (c :: text) rest P := by
  refine ⟨[⟨role, c :: text⟩], ?_, fun p more => ⟨p.after (c :: text), _, ?_, h p⟩⟩
  · rw [List.cons_append, Cut.go]
    simp only [hscan, List.take_left, go_skip]
    rfl
  · cases role <;> rfl

theorem token (hscan : scan d fresh c (text ++ rest) = .ok (.token k, text.length))
    (hline : (c :: text).any endsLine = false) :
    Reads d fresh false (c :: text) rest (Single k fresh) := by
  refine segment hscan fun p => ⟨⟨_, rfl⟩, rfl, ?_⟩
  simp only [Segment.breaksLine, hline, Bool.or_false]

/-- What is no token leaves none. -/
theorem skipped {role : Role} (hrole : ∀ k, role ≠ .token k)
    (hscan : scan d fresh c (text ++ rest) = .ok (role, text.length)) :
    Reads d fresh (fresh || (c :: text).any endsLine) (c :: text) rest (· = []) := by
  have hleaves : Segment.leavesFresh fresh ⟨role, c :: text⟩ = (fresh || (c :: text).any endsLine) := by
    cases role <;> first | rfl | exact absurd rfl (hrole _)
  rw [← hleaves]
  refine segment hscan fun p => ?_
  cases role <;> first | rfl | exact absurd rfl (hrole _)

/-- A text that is read to its end. -/
theorem tokenize {source : String} (h : Reads d true after source.toList [] P) :
    ∃ tokens, ForeignModule.tokenize d source = .ok tokens ∧ P tokens := by
  obtain ⟨segments, hcut, htokens⟩ := h
  obtain ⟨q, tokens, hread, hp⟩ := htokens {} []
  refine ⟨tokens, ?_, hp⟩
  simp only [List.append_nil] at hcut hread
  simp only [ForeignModule.tokenize, Cut.ofSource, hcut, Cut.go, List.append_nil, hread, ofSegments]

end Reads

end

/-! ## Words and signs -/

/-- A word that is written with letters, digits and underscores, and does not start with a digit. -/
def IsWord (s : String) : Prop :=
  s.toList.head?.any isWordStart = true ∧ ∀ c ∈ s.toList, isWordPart c = true

instance (s : String) : Decidable (IsWord s) :=
  decidable_of_iff (_ ∧ s.toList.all isWordPart = true) (and_congr_right fun _ => List.all_eq_true)

/-- What follows a word does not belong to it. -/
def EndsWord (rest : List Char) : Prop := ∀ c ∈ rest.head?, isWordPart c = false

section

variable {fresh : Bool} {text rest : List Char} {c : Char} {k : Kind} {w : String}

theorem takeWhile_isWordPart (h : ∀ a ∈ text, isWordPart a = true) (hrest : EndsWord rest) :
    (text ++ rest).takeWhile isWordPart = text := by
  rw [List.takeWhile_append_of_pos h]
  cases rest with
  | nil => simp
  | cons a tail => simp [hrest a rfl]

theorem endsLine_of_isWordPart (h : isWordPart c = true) : endsLine c = false := by
  cases hends : endsLine c with
  | false => rfl
  | true =>
    simp only [endsLine, Bool.or_eq_true, beq_iff_eq] at hends
    rcases hends with rfl | rfl <;> exact absurd h (by decide)

theorem any_endsLine_of_isWordPart (h : ∀ a ∈ text, isWordPart a = true) : text.any endsLine = false := by
  simp only [List.any_eq_false, Bool.not_eq_true]
  exact fun a ha => endsLine_of_isWordPart (h a ha)

theorem isBlank_of_isWordPart (h : isWordPart c = true) : isBlank c = false := by
  cases hblank : isBlank c with
  | false => rfl
  | true =>
    simp only [isBlank, Bool.or_eq_true, beq_iff_eq] at hblank
    rcases hblank with (((rfl | rfl) | rfl) | rfl) | rfl <;> exact absurd h (by decide)

/-- No blank, comment or line of the preprocessor starts with a character of a word. -/
theorem scan_of_isWordPart {d : Dialect} (h : isWordPart c = true) :
    scan d fresh c rest = scanToken d c rest := by
  have hne : ∀ a, isWordPart a = false → (c == a) = false := by
    intro a ha
    simp only [beq_eq_false_iff_ne]
    rintro rfl
    rw [ha] at h
    cases h
  unfold scan
  simp only [isBlank_of_isWordPart h, hne '/' (by decide), hne '#' (by decide), Bool.false_and,
    Bool.false_eq_true, if_false]

theorem scanToken_of_isWordPart {d : Dialect} (h : isWordPart c = true) : scanToken d c rest =
    if isWordStart c then scanLetter d c rest else if c.isDigit then scanNumber d c rest
      else single (.punctuation c) := by
  have hquote : c ≠ '\x60' := by
    rintro rfl
    exact absurd h (by decide)
  unfold scanToken
  split
  case h_21 => simp [hquote]
  all_goals exact absurd h (by decide)

/-- In C every letter starts a word. -/
theorem scanLetter_c : scanLetter .c c rest = scanWord c rest := rfl

theorem reads_word (h : IsWord w) (hrest : EndsWord rest) :
    Reads .c fresh false w.toList rest (Single (.identifier w) fresh) := by
  obtain ⟨hfirst, hparts⟩ := h
  cases hw : w.toList with
  | nil => simp [hw] at hfirst
  | cons c tail =>
    rw [hw] at hfirst hparts
    have hstart : isWordStart c = true := by simpa using hfirst
    have htail : ∀ a ∈ tail, isWordPart a = true := fun a ha => hparts a (List.mem_cons_of_mem _ ha)
    have hname : String.ofList (c :: tail) = w := by rw [← hw, String.ofList_toList]
    refine .token ?_ (any_endsLine_of_isWordPart hparts)
    rw [scan_of_isWordPart (hparts c List.mem_cons_self), scanToken_of_isWordPart
      (hparts c List.mem_cons_self), if_pos hstart, scanLetter_c, scanWord,
      takeWhile_isWordPart htail hrest, hname]

theorem numberLength_append (h : ∀ a ∈ text, isWordPart a = true)
    (hrest : ∀ a ∈ rest.head?, isWordPart a = false ∧ a ≠ '.' ∧ a ≠ '\'') :
    numberLength .c (text ++ rest) = text.length := by
  induction text with
  | nil =>
    cases rest with
    | nil => rfl
    | cons a tail =>
      obtain ⟨hpart, hpoint, hquote⟩ := hrest a rfl
      simp [numberLength, hpart, hpoint, hquote]
  | cons a tail ih =>
    have ha : isWordPart a = true := h a List.mem_cons_self
    rw [List.cons_append, numberLength, ha, ih fun b hb => h b (List.mem_cons_of_mem _ hb)]
    simp

/-- Letters and digits in a row are a word or a number. -/
theorem reads_wordlike (hne : text ≠ []) (h : ∀ a ∈ text, isWordPart a = true)
    (hrest : ∀ a ∈ rest.head?, isWordPart a = false ∧ a ≠ '.' ∧ a ≠ '\'') :
    Reads .c fresh false text rest fun ts => ∀ t ∈ ts, t.kind.isWordlike = true := by
  cases text with
  | nil => exact absurd rfl hne
  | cons c tail =>
    have hc : isWordPart c = true := h c List.mem_cons_self
    have htail : ∀ a ∈ tail, isWordPart a = true := fun a ha => h a (List.mem_cons_of_mem _ ha)
    have hone : ∀ k, k.isWordlike = true → scan .c fresh c (tail ++ rest) = .ok (.token k, tail.length) →
        Reads .c fresh false (c :: tail) rest fun ts => ∀ t ∈ ts, t.kind.isWordlike = true := by
      intro k hk hscan
      refine (Reads.token hscan (any_endsLine_of_isWordPart h)).mono ?_
      rintro tokens ⟨t, rfl, -⟩ u hu
      rw [List.mem_singleton.1 hu, t.2, hk]
    by_cases hstart : isWordStart c = true
    · apply hone (.identifier (.ofList (c :: tail))) rfl
      rw [scan_of_isWordPart hc, scanToken_of_isWordPart hc, if_pos hstart, scanLetter_c, scanWord,
        takeWhile_isWordPart htail fun a ha => (hrest a ha).1]
    · have hdigit : c.isDigit = true := by
        cases hd : c.isDigit with
        | true => rfl
        | false =>
          rw [isWordPart_eq_false hstart (by simp [hd])] at hc
          cases hc
      apply hone (.number (.ofList (c :: tail))) rfl
      rw [scan_of_isWordPart hc, scanToken_of_isWordPart hc, if_neg hstart, if_pos hdigit, scanNumber,
        numberLength_append htail hrest, List.take_left]

/-- A token of one character. -/
theorem reads_sign (hscan : scan .c fresh c rest = single k) (hline : endsLine c = false) :
    Reads .c fresh false [c] rest (Single k fresh) :=
  .token hscan (by simp [hline])

/-! ## Blanks and lines -/

/-- What follows a blank is none. -/
def EndsBlank (rest : List Char) : Prop := ∀ c ∈ rest.head?, isBlank c = false

theorem scan_blank (hc : isBlank c = true) (hrest : EndsBlank rest) :
    scan .c fresh c rest = .ok (.blank, 0) := by
  have hnone : rest.takeWhile isBlank = [] := by
    cases rest with
    | nil => rfl
    | cons a tail => simp [hrest a rfl]
  simp [scan, hc, hnone]

theorem reads_space (hrest : EndsBlank rest) : Reads .c fresh fresh [' '] rest (· = []) := by
  have hread : Reads .c fresh (fresh || [' '].any endsLine) [' '] rest (· = []) :=
    .skipped (by simp) (scan_blank rfl hrest)
  simpa [endsLine] using hread

theorem reads_newline (hrest : EndsBlank rest) : Reads .c fresh true ['\n'] rest (· = []) := by
  have hread : Reads .c fresh (fresh || ['\n'].any endsLine) ['\n'] rest (· = []) :=
    .skipped (by simp) (scan_blank rfl hrest)
  simpa [endsLine] using hread

/-- A blank before a text changes nothing. -/
theorem Reads.afterSpace {after : Bool} {P : List Token → Prop} (h : Reads .c fresh after text rest P)
    (hblank : EndsBlank (text ++ rest)) : Reads .c fresh after ([' '] ++ text) rest P :=
  (reads_space hblank).append h fun _ _ hempty hp => by simpa [hempty] using hp

/-- Behind the end of a line the next one is without a token. -/
theorem Reads.afterNewline {after : Bool} {P : List Token → Prop} (h : Reads .c true after text rest P)
    (hblank : EndsBlank (text ++ rest)) : Reads .c fresh after (['\n'] ++ text) rest P :=
  (reads_newline hblank).append h fun _ _ hempty hp => by simpa [hempty] using hp

/-- A line of the preprocessor ends with its line, unless a backslash stands at the end. -/
theorem directiveLength_append (h : ∀ a ∈ text, endsLine a = false) (hlast : text.getLast? ≠ some '\\') :
    directiveLength (text ++ '\n' :: rest) = text.length := by
  induction text with
  | nil => rfl
  | cons a tail ih =>
    have ha : endsLine a = false := h a List.mem_cons_self
    have hstep : directiveLength (a :: (tail ++ '\n' :: rest))
        = directiveLength (tail ++ '\n' :: rest) + 1 := by
      cases tail with
      | nil =>
        have hne : a ≠ '\\' := by simpa using hlast
        simp [directiveLength, ha, hne]
      | cons b more =>
        have hb : endsLine b = false := h b (by simp)
        have hline : b ≠ '\n' ∧ b ≠ '\r' := by
          constructor <;> rintro rfl <;> cases hb
        simp [directiveLength, ha, hline.1, hline.2]
    rw [List.cons_append, hstep, ih fun b hb => h b (List.mem_cons_of_mem _ hb)]
    · rfl
    · cases tail with
      | nil => simp
      | cons b more => simpa using hlast

theorem reads_directive (h : ∀ a ∈ text, endsLine a = false) (hlast : text.getLast? ≠ some '\\') :
    Reads .c true true ('#' :: text) ('\n' :: rest) (· = []) := by
  have hscan : scan .c true '#' (text ++ '\n' :: rest) = .ok (.directive, text.length) := by
    rw [← directiveLength_append h hlast]
    rfl
  exact .skipped (by simp) hscan

/-! ## Types -/

/-- Types are written with words and stars. -/
def Kind.spellsType : Kind → Bool
  | .identifier w => decide (IsWord w)
  | .star => true
  | _ => false

theorem eq_star_of_spellsType (hk : k.spellsType = true) (hword : k.isWordlike = false) : k = .star := by
  cases k with
  | identifier w => cases hword
  | star => rfl
  | _ => cases hk

theorem spaced_of_spellsType {next : Kind} (hk : k.spellsType = true) (hnext : next.spellsType = true) :
    k.spaced next = (k.isWordlike && next.isWordlike) := by
  have hne : ∀ (l m : Kind), l.spellsType = true → m.spellsType = false → (l == m) = false := by
    intro l m hl hm
    rw [beq_eq_false_iff_ne]
    rintro rfl
    rw [hl] at hm
    cases hm
  simp [Kind.spaced, hne k .comma hk rfl, hne k .arrow hk rfl, hne next .arrow hnext rfl]

theorem reads_typePart (hk : k.spellsType = true) (hrest : k.isWordlike = true → EndsWord rest) :
    Reads .c fresh false k.text.toList rest (Single k fresh) := by
  cases k with
  | identifier w => exact reads_word (of_decide_eq_true hk) (hrest rfl)
  | star => exact reads_sign rfl rfl
  | _ => cases hk

/-- What is written of a list of kinds starts with the first of them. -/
theorem exists_render (k : Kind) (ks : List Kind) :
    ∃ more, (Kind.render (k :: ks)).toList = k.text.toList ++ more := by
  cases ks with
  | nil => exact ⟨[], by simp [Kind.render]⟩
  | cons next ks => exact ⟨_, by simp [Kind.render]; rfl⟩

/-- No blank starts a type. -/
theorem endsBlank_render {ks : List Kind} (hk : k.spellsType = true) :
    EndsBlank ((Kind.render (k :: ks)).toList ++ rest) := by
  obtain ⟨more, hmore⟩ := exists_render k ks
  rw [hmore]
  cases k with
  | identifier w =>
    obtain ⟨hfirst, hparts⟩ : IsWord w := of_decide_eq_true hk
    cases hw : w.toList with
    | nil => simp [hw] at hfirst
    | cons c tail =>
      intro a ha
      simp only [Kind.text, hw, List.cons_append, List.head?_cons, Option.mem_def, Option.some.injEq] at ha
      subst ha
      rw [hw] at hparts
      exact isBlank_of_isWordPart (hparts c List.mem_cons_self)
  | star =>
    intro a ha
    cases ha
    rfl
  | _ => cases hk

end

/-- The tokens have these kinds, and only the first may start its line. -/
def Spells (ks : List Kind) (startsLine : Bool) (tokens : List Token) : Prop :=
  tokens.map Token.kind = ks ∧ ∀ t ∈ tokens.head?, t.startsLine = startsLine

/-- Words and stars that are written out are read again. -/
theorem reads_render {fresh : Bool} {rest : List Char} {k : Kind} {ks : List Kind}
    (h : ∀ k' ∈ k :: ks, k'.spellsType = true) (hrest : EndsWord rest) :
    Reads .c fresh false (Kind.render (k :: ks)).toList rest (Spells (k :: ks) fresh) := by
  induction ks generalizing k fresh with
  | nil =>
    refine (reads_typePart (h k List.mem_cons_self) fun _ => hrest).mono ?_
    rintro tokens ⟨t, rfl, hstarts⟩
    simp [Spells, t.2, hstarts]
  | cons next ks ih =>
    have hk : k.spellsType = true := h k List.mem_cons_self
    have hnext : next.spellsType = true := h next (by simp)
    have htail : Reads .c false false (Kind.render (next :: ks)).toList rest (Spells (next :: ks) false) :=
      ih fun k' hk' => h k' (List.mem_cons_of_mem _ hk')
    have hboth : ∀ x y, Single k fresh x → Spells (next :: ks) false y →
        Spells (k :: next :: ks) fresh (x ++ y) := by
      rintro x y ⟨t, rfl, hstarts⟩ ⟨hkinds, -⟩
      simp [Spells, t.2, hstarts, hkinds]
    rw [Kind.render, spaced_of_spellsType hk hnext]
    cases hword : k.isWordlike && next.isWordlike with
    | true =>
      -- A blank keeps two words apart.
      have hspaced : Reads .c false false ([' '] ++ (Kind.render (next :: ks)).toList) rest
          (Spells (next :: ks) false) := htail.afterSpace (endsBlank_render hnext)
      have hends : EndsWord ([' '] ++ (Kind.render (next :: ks)).toList ++ rest) := by
        intro a ha
        cases ha
        rfl
      have hread : Reads .c fresh false (k.text.toList ++ ([' '] ++ (Kind.render (next :: ks)).toList)) rest
          (Spells (k :: next :: ks) fresh) := (reads_typePart hk fun _ => hends).append hspaced hboth
      simpa using hread
    | false =>
      have hends : k.isWordlike = true → EndsWord ((Kind.render (next :: ks)).toList ++ rest) := by
        intro hk'
        rw [hk', Bool.true_and] at hword
        obtain ⟨more, hmore⟩ := exists_render next ks
        rw [hmore, eq_star_of_spellsType hnext hword]
        intro a ha
        cases ha
        rfl
      have hread : Reads .c fresh false (k.text.toList ++ (Kind.render (next :: ks)).toList) rest
          (Spells (k :: next :: ks) fresh) := (reads_typePart hk hends).append htail hboth
      simpa using hread

end ForeignModule.Token
