import ForeignModule.Proofs.Abi.CType

/-!
# One spelling for each C type

Types are looked up by their spelling, so it has to tell types apart just as their words and stars
do, whatever blanks and qualifiers stand between these.

* `Reads` says which words and stars a text is made of, without a scanner, and `reads_iff` says that
  the scanner finds these;
* `bare_normalize`: a spelling has no qualifiers left, and its words and stars are those of the type;
* `normalize_eq_iff_reads`: so the spelling is a canonical form.
-/

namespace ForeignModule.Abi.CType

/-- The text is these words and stars in this order. Blanks may stand anywhere but in a word, and a
word goes on as long as neither a blank nor a star follows. -/
inductive Reads : List Char → List Part → Prop where
  | done : Reads [] []
  | blank {c : Char} {rest : List Char} {ps : List Part} :
      Text.isBlank c = true → Reads rest ps → Reads (c :: rest) ps
  | star {rest : List Char} {ps : List Part} : Reads rest ps → Reads ('*' :: rest) (.star :: ps)
  | word {w rest : List Char} {ps : List Part} : w ≠ [] → (∀ c ∈ w, Solid c) →
      (∀ c ∈ rest.head?, ¬Solid c) → Reads rest ps → Reads (w ++ rest) (.word w :: ps)

section Reading

variable {c : Char} {text rest : List Char} {ps : List Part}

/-- The scanner finds what a text is made of. -/
theorem Reads.parts_eq (h : Reads text ps) : parts text = ps := by
  induction h with
  | done => rfl
  | blank hblank _ ih => rw [parts_blank hblank, ih]
  | star _ ih => rw [parts_star, ih]
  | word hne hsolid hend _ ih => rw [parts_append hend, parts_word hne hsolid, ih, List.singleton_append]

/-- What starts with a character of a word starts with a word. -/
theorem Reads.exists_word (h : Reads (c :: rest) ps) (hc : Solid c) :
    ∃ w behind more, ps = .word w :: more ∧ c :: rest = w ++ behind ∧ (∀ a ∈ w, Solid a) ∧
      (∀ a ∈ behind.head?, ¬Solid a) ∧ Reads behind more := by
  generalize htext : c :: rest = text at h
  cases h with
  | done => cases htext
  | blank hblank _ =>
    injection htext with hchar _
    simp [← hchar, hc.1] at hblank
  | star _ =>
    injection htext with hchar _
    exact absurd hchar hc.2
  | @word w behind more _ hsolid hend hmore => exact ⟨w, behind, more, rfl, rfl, hsolid, hend, hmore⟩

/-- A character of a word lengthens the word behind it, or is a word. -/
theorem Reads.solid (h : Reads rest ps) (hc : Solid c) : ∃ qs, Reads (c :: rest) qs := by
  by_cases hnext : ∃ next ∈ rest.head?, Solid next
  · rcases hnext with ⟨next, hhead, hsolid⟩
    rcases List.head?_eq_some_iff.1 hhead with ⟨tail, rfl⟩
    rcases h.exists_word hsolid with ⟨w, behind, more, rfl, htext, hw, hend, hmore⟩
    rw [htext]
    exact ⟨_, .word (w := c :: w) (by simp) (List.forall_mem_cons.2 ⟨hc, hw⟩) hend hmore⟩
  · have hend : ∀ a ∈ rest.head?, ¬Solid a := by
      intro a ha hsolid
      exact hnext ⟨a, ha, hsolid⟩
    exact ⟨_, .word (w := [c]) (by simp) (by simpa using hc) hend h⟩

theorem exists_reads (text : List Char) : ∃ ps, Reads text ps := by
  induction text with
  | nil => exact ⟨[], .done⟩
  | cons c rest ih =>
    rcases ih with ⟨ps, hps⟩
    by_cases hblank : Text.isBlank c = true
    · exact ⟨ps, .blank hblank hps⟩
    · by_cases hstar : c = '*'
      · exact ⟨.star :: ps, hstar ▸ .star hps⟩
      · exact hps.solid ⟨by simpa using hblank, hstar⟩

/-- Every text is made of words and stars in one way, and the scanner finds it. -/
theorem reads_iff : Reads text ps ↔ parts text = ps := by
  constructor
  · exact Reads.parts_eq
  · rintro rfl
    rcases exists_reads text with ⟨ps, hps⟩
    rwa [hps.parts_eq]

end Reading

/-- The spelling of a type has no qualifiers left to drop. -/
theorem bare_normalize (text : List Char) : bare (normalize text) = bare text := by
  rw [bare, parts_normalize, bare, List.filter_filter]
  simp

/-- The spelling is a canonical form: two texts have the same one exactly if they are made of the same
words and stars besides qualifiers, and what is spelled so is not changed any more. -/
theorem normalize_eq_iff_reads (left right : List Char) :
    (normalize left = normalize right ↔
      ∃ ps qs, Reads left ps ∧ Reads right qs ∧
        ps.filter (!·.isQualifier) = qs.filter (!·.isQualifier)) ∧
    normalize (normalize left) = normalize left := by
  refine ⟨?_, normalize_eq_iff.2 (bare_normalize left)⟩
  rw [normalize_eq_iff]
  constructor
  · intro h
    exact ⟨parts left, parts right, reads_iff.2 rfl, reads_iff.2 rfl, h⟩
  · rintro ⟨ps, qs, hleft, hright, h⟩
    rwa [bare, bare, hleft.parts_eq, hright.parts_eq]

/-- Blanks and qualifiers vanish, and a word behind a star is still set off. -/
example : normalize "const\tchar * restrict*p".toList = "char** p".toList := by decide

end ForeignModule.Abi.CType
