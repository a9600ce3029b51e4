import ForeignModule.Proofs.Source.Boundary

/-!
# Rests that are alike

Two texts are alike if they go on with the same characters up to a blank (`Alike`), which need not
be the same one. No segment in front can tell them apart, as none looks further than to the first
blank: what may stand in front of one may stand in front of the other (`Segment.EndsBefore.of_alike`).
Only what reaches to the end of its line asks which blank it is.
-/

namespace ForeignModule

open Bounds (Stride)
open Source Token

namespace Source

variable {d : Dialect} {c : Char} {rest rest' : List Char}

/-- Does a segment in front ask for what stands behind this character? A raw string does so behind
its marks, a number behind a point and, in C, behind a quote. -/
def looksBehind (d : Dialect) (c : Char) : Bool :=
  (d == .rust && c == '#') || c == '.' || (d == .c && c == '\'')

/-- The texts go on with the same characters, up to one at which every segment in front has ended. -/
inductive Alike (d : Dialect) : List Char → List Char → Prop where
  | nil : Alike d [] []
  | blank {a a' : Char} {rest rest' : List Char} (ha : isBlank a = true) (ha' : isBlank a' = true) :
      Alike d (a :: rest) (a' :: rest')
  | known {c : Char} {rest rest' : List Char} (hc : looksBehind d c = false) :
      Alike d (c :: rest) (c :: rest')
  | cons (c : Char) {rest rest' : List Char} (h : Alike d rest rest') : Alike d (c :: rest) (c :: rest')

/-! ## Blanks -/

/-- No blank belongs to a word. -/
theorem not_of_isBlank {p : Char → Bool} (hp : ∀ a, p a = true → isWordPart a = true)
    (h : isBlank c = true) : p c = false := by
  cases hc : p c with
  | false => rfl
  | true =>
    rw [isBlank_of_isWordPart (hp c hc)] at h
    cases h

theorem rawHashes?_of_isBlank (h : isBlank c = true) : rawHashes? (c :: rest) = none := by
  rw [rawHashes?_cons, if_neg (ne_of_test h rfl), if_neg (ne_of_test h rfl)]

theorem inNumber_of_isBlank (h : isBlank c = true) : inNumber d c rest = false := by
  have hpoint : c ≠ '.' := ne_of_test h rfl
  have hquote : c ≠ '\'' := ne_of_test h rfl
  simp [inNumber, not_of_isBlank (fun _ => id) h, hpoint, hquote]

namespace Alike

theorem append (h : Alike d rest rest') (front : List Char) :
    Alike d (front ++ rest) (front ++ rest') := by
  induction front with
  | nil => exact h
  | cons c front ih => exact .cons c ih

/-! ## What segments ask for -/

/-- A question that every blank answers with no has one answer. -/
theorem any_head? {p : Char → Bool} (hp : ∀ a, isBlank a = true → p a = false)
    (h : Alike d rest rest') : rest.head?.any p = rest'.head?.any p := by
  cases h with
  | nil => rfl
  | blank ha ha' => simp [hp _ ha, hp _ ha']
  | known | cons => rfl

theorem head?_ne {a : Char} (ha : isBlank a = false) (h : Alike d rest rest')
    (hrest : rest.head? ≠ some a) : rest'.head? ≠ some a := by
  have hne : ∀ b, isBlank b = true → (b == a) = false := fun b hb =>
    beq_eq_false_iff_ne.2 (ne_of_test hb ha)
  rw [ne_eq, head?_eq_some_iff_any] at hrest ⊢
  rwa [← h.any_head? hne]

theorem endsWord (h : Alike d rest rest') (hrest : EndsWord rest) : EndsWord rest' := by
  have hany : rest'.head?.any isWordPart = false := by
    rw [← h.any_head? fun _ => not_of_isBlank fun _ => id]
    exact (Option.any_eq_false _ _).2 hrest
  exact (Option.any_eq_false _ _).1 hany

theorem rawHashes? (h : Alike .rust rest rest') : rawHashes? rest = Source.rawHashes? rest' := by
  induction h with
  | nil => rfl
  | blank ha ha' => rw [rawHashes?_of_isBlank ha, rawHashes?_of_isBlank ha']
  | @known c _ _ hc =>
    have hne : c ≠ '#' := by
      rintro rfl
      cases hc
    rw [rawHashes?_cons, rawHashes?_cons, if_neg hne, if_neg hne]
  | cons c h ih => rw [rawHashes?_cons, rawHashes?_cons, ih]

/-- Both texts go on with a number, or neither does. -/
theorem inNumber (h : Alike d (c :: rest) (c :: rest')) :
    inNumber d c rest = Source.inNumber d c rest' := by
  cases h with
  | blank ha => rw [inNumber_of_isBlank ha, inNumber_of_isBlank ha]
  | known hc =>
    simp only [looksBehind, Bool.or_eq_false_iff, Bool.and_comm (d == .c)] at hc
    rw [Source.inNumber, Source.inNumber, hc.1.2, hc.2]
    rfl
  | cons _ h =>
    rw [Source.inNumber, Source.inNumber, h.any_head? fun _ => not_of_isBlank fun _ => isWordPart_of_isDigit,
      h.any_head? fun _ => not_of_isBlank fun _ => isWordPart_of_isHexDigit]

theorem numberLength (h : Alike d rest rest') (hrest : numberLength d rest = 0) :
    Source.numberLength d rest' = 0 := by
  have hzero : ∀ {c : Char} {more : List Char},
      Source.numberLength d (c :: more) = 0 ↔ Source.inNumber d c more = false := by
    intro c more
    rw [numberLength_cons]
    cases Source.inNumber d c more <;> simp
  cases h with
  | nil => rfl
  | blank ha ha' => exact hzero.2 (inNumber_of_isBlank ha')
  | known hc => exact hzero.2 ((Alike.known hc).inNumber ▸ hzero.1 hrest)
  | cons c h => exact hzero.2 ((Alike.cons c h).inNumber ▸ hzero.1 hrest)

end Alike

/-! ## Preprocessor lines -/

/-- A line end that is read at once is read so before every rest that starts with none. -/
theorem stride_of_head? {stride : List Char} (h : Stride stride rest)
    (hhead : (∀ a ∈ rest'.head?, endsLine a = false) ∨ rest'.head? = rest.head?) :
    Stride stride rest' := by
  cases h with
  | crlf => exact .crlf _
  | char hnext =>
    refine .char fun hreturn hfeed => ?_
    rcases hhead with hnone | hsame
    · exact absurd (hnone _ hfeed) (by decide)
    · exact hnext hreturn (hsame ▸ hfeed)

theorem endsLine_of_stride {stride : List Char} (hc : endsLine c = true) (h : Stride (c :: stride) rest) :
    ∀ a ∈ c :: stride, endsLine a = true := by
  cases h with
  | crlf => simp [endsLine]
  | char => simpa using hc

namespace DirectiveLine

variable {text back back' : List Char}

theorem ends (h : DirectiveLine rest text) : ∀ a ∈ rest.head?, endsLine a = true := by
  induction h with
  | nil hend => exact hend
  | continued _ _ _ ih => exact ih
  | plain _ _ _ ih => exact ih

/-- A line may go on otherwise behind any text that it starts with, as long as no line end takes part
in that: what stood there starts with none, and what stands there now with none or with the same. -/
theorem replace (h : DirectiveLine rest (text ++ back)) (hback : ∀ a ∈ back.head?, endsLine a = false)
    (hline : DirectiveLine rest' back')
    (hhead : (∀ a ∈ (back' ++ rest').head?, endsLine a = false) ∨
      (back' ++ rest').head? = (back ++ rest).head?) :
    DirectiveLine rest' (text ++ back') := by
  -- So a backslash or a carriage return at the end of the text stands before no new line end.
  have hsame : ∀ {text : List Char}, (∀ a ∈ (text ++ back' ++ rest').head?, endsLine a = false) ∨
      (text ++ back' ++ rest').head? = (text ++ back ++ rest).head? := by
    intro text
    cases text with
    | nil => exact hhead
    | cons a text => exact .inr rfl
  generalize hwhole : text ++ back = whole at h
  induction h generalizing text with
  | nil hend =>
    obtain ⟨rfl, rfl⟩ := List.append_eq_nil_iff.1 hwhole
    exact hline
  | @continued c stride tail hc hstride h ih =>
    cases text with
    | nil => exact hline
    | cons x text =>
      obtain ⟨rfl, htail⟩ := List.cons.inj hwhole
      -- The line end that is carried on belongs to the text, as `back` starts with none.
      obtain ⟨text, rfl, rfl⟩ : ∃ more, text = c :: stride ++ more ∧ tail = more ++ back := by
        rcases List.append_eq_append_iff.1 htail with ⟨between, hsplit, hmore⟩ | ⟨more, hsplit, hmore⟩
        · cases between with
          | nil => exact ⟨[], by simpa using hsplit.symm, by simpa using hmore.symm⟩
          | cons a between =>
            have ha : endsLine a = true :=
              endsLine_of_stride hc hstride a (hsplit ▸ List.mem_append_right _ List.mem_cons_self)
            rw [hback a (by rw [hmore]; rfl)] at ha
            cases ha
        · exact ⟨more, hsplit, hmore⟩
      rw [List.cons_append, List.append_assoc]
      exact .continued hc (stride_of_head? hstride hsame) (ih rfl)
  | @plain c tail hc hslash h ih =>
    cases text with
    | nil => exact hline
    | cons x text =>
      obtain ⟨rfl, rfl⟩ := List.cons.inj hwhole
      refine .plain hc (fun hx a ha => ?_) (ih rfl)
      rcases hsame with hnone | hsame
      · exact hnone a ha
      · exact hslash hx a (hsame ▸ ha)

/-- A line goes on with further characters if they start with no line end, or with the one that was
there before. -/
theorem append (h : DirectiveLine rest text) (hmore : DirectiveLine rest' back')
    (hhead : (∀ a ∈ (back' ++ rest').head?, endsLine a = false) ∨
      (back' ++ rest').head? = rest.head?) :
    DirectiveLine rest' (text ++ back') := by
  rw [← List.append_nil text] at h
  exact h.replace (by simp) hmore hhead

theorem of_head? (hhead : rest.head? = rest'.head?) (h : DirectiveLine rest text) :
    DirectiveLine rest' text := by
  have hends : DirectiveLine rest' [] := .nil (hhead ▸ h.ends)
  simpa using h.append hends (.inr hhead.symm)

/-- A line without line ends goes up to the next one, unless a backslash stands before that. -/
theorem of_forall (h : ∀ a ∈ text, endsLine a = false) (hlast : text.getLast? ≠ some '\\')
    (hend : ∀ a ∈ rest.head?, endsLine a = true) : DirectiveLine rest text := by
  induction text with
  | nil => exact .nil hend
  | cons c text ih =>
    obtain ⟨hc, htext⟩ := List.forall_mem_cons.1 h
    cases text with
    | nil => exact .plain hc (fun hc' => absurd (congrArg some hc') hlast) (.nil hend)
    | cons a text =>
      refine .plain hc (fun _ b hb => ?_) (ih htext (by simpa using hlast))
      obtain rfl := Option.some.inj hb
      exact htext a (by simp)

end DirectiveLine

end Source

/-! ## Where segments may end -/

section

variable {d : Dialect} {rest rest' text : List Char}

theorem Source.EndsName.of_alike (halike : Alike d rest rest') (h : EndsName d text rest) :
    EndsName d text rest' := by
  refine ⟨halike.endsWord h.1, ?_⟩
  rintro rfl
  obtain ⟨hraw, hbyte⟩ := h.2 rfl
  exact ⟨fun htext => halike.rawHashes? ▸ hraw htext, fun htext => halike.head?_ne rfl (hbyte htext)⟩

theorem Token.Kind.EndsBefore.of_alike {kind : Kind} (halike : Alike d rest rest')
    (h : kind.EndsBefore d text rest) : kind.EndsBefore d text rest' := by
  cases kind with
  | identifier => exact h.imp id (EndsName.of_alike halike)
  | number => exact halike.numberLength h
  | string => exact fun hd htext => halike.head?_ne rfl (h hd htext)
  | lifetime => exact ⟨halike.endsWord h.1, fun htext => halike.head?_ne rfl (h.2 htext)⟩
  | colon => exact halike.head?_ne rfl h
  | punctuation c =>
    exact ⟨fun hc => halike.head?_ne rfl (h.1 hc),
      fun hc => (h.2 hc).imp (halike.head?_ne rfl) (halike.head?_ne rfl)⟩
  | _ => trivial

/-- Where a segment may end before a text, it may end before one that is alike. What reaches to the
end of its line asks for the first character itself. -/
theorem Segment.EndsBefore.of_alike {s : Segment} (halike : Alike d rest rest')
    (hline : s.role = .lineComment ∨ s.role = .directive → rest.head? = rest'.head?)
    (h : s.EndsBefore d rest) : s.EndsBefore d rest' := by
  obtain ⟨role, text⟩ := s
  cases role with
  | blank =>
    cases halike with
    | nil => exact h
    | blank ha =>
      -- The row of blanks would have taken in this one.
      have hnot := h _ rfl
      rw [ha] at hnot
      cases hnot
    | known | cons => exact h
  | lineComment =>
    have hends : ∀ c ∈ rest.head?, endsLine c = true := h
    rw [hline (.inl rfl)] at hends
    exact hends
  | blockComment => trivial
  | directive => exact DirectiveLine.of_head? (hline (.inr rfl)) h
  | bytePrefix =>
    cases halike with
    | nil => exact h
    | blank ha =>
      cases h
      cases ha
    | known | cons => exact h
  | token kind => exact Token.Kind.EndsBefore.of_alike halike h

end

end ForeignModule
