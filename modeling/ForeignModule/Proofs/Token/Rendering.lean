import ForeignModule.Proofs.Text.Search
import ForeignModule.Proofs.Token.Listing
import ForeignModule.Token.Rendering

/-!
# What a written-out token list starts and ends with

A blank stands between two neighbours or does not, and nothing else is added, so the ends of the
text are the ends of the first and the last token. `eq_lead_of_word`: words do not run together, so
a word at the end of the text is the last token.
-/

namespace ForeignModule.Token.Kind

/-- What is written of a token that is no literal and not fixed by its kind. -/
def spelling : Kind → List Char
  | identifier s | number s | lifetime s => s.toList
  | punctuation c => [c]
  | _ => []

/-- No white space stands in the token, unless it is a literal. -/
def Visible (k : Kind) : Prop := ∀ c ∈ k.spelling, Text.isBlank c = false

instance (k : Kind) : Decidable k.Visible :=
  decidable_of_iff (k.spelling.all (!Text.isBlank ·) = true) (by simp [Visible])

section Single

variable {k : Kind}

/-- Symbols are written with characters that no word has. -/
theorem isWordPart_symbol (hk : k.isWordlike = false) (hl : k.Lexical) :
    ∀ c ∈ k.text.toList, Source.isWordPart c = false := by
  suffices h : k.text.toList.all (!Source.isWordPart ·) = true by simpa using h
  cases k with
  | punctuation p => simp [text, Char.toString, hl.1]
  | opening b => cases b <;> decide
  | closing b => cases b <;> decide
  | identifier s => cases hk
  | number s => cases hk
  | string s => cases hk
  | character s => cases hk
  | lifetime s => cases hk
  | _ => decide

theorem isBlank_symbol (hk : k.isWordlike = false) (hv : k.Visible) :
    ∀ c ∈ k.text.toList, Text.isBlank c = false := by
  suffices h : k.text.toList.all (!Text.isBlank ·) = true by simpa using h
  cases k with
  | punctuation p => simp [text, Char.toString, hv p (by simp [spelling])]
  | opening b => cases b <;> decide
  | closing b => cases b <;> decide
  | identifier s => cases hk
  | number s => cases hk
  | string s => cases hk
  | character s => cases hk
  | lifetime s => cases hk
  | _ => decide

theorem text_ne_nil (hl : k.Lexical) : k.text.toList ≠ [] := by
  cases k with
  | identifier s => exact hl.1
  | number s =>
    obtain ⟨c, hc, _⟩ := hl.1
    intro h
    simp only [text] at h
    simp [h] at hc
  | opening b => cases b <;> decide
  | closing b => cases b <;> decide
  | _ => simp [text, name, Char.toString]

theorem getLast?_string (s : String) : (string s).text.toList.getLast? = some '"' := by
  have : (string s).text.toList = ('"' :: s.toList) ++ ['"'] := by simp [text]
  rw [this, List.getLast?_concat]

theorem getLast?_character (s : String) : (character s).text.toList.getLast? = some '\'' := by
  have : (character s).text.toList = ('\'' :: s.toList) ++ ['\''] := by simp [text]
  rw [this, List.getLast?_concat]

/-- Neither end of a token is blank. -/
theorem isBlank_end (hl : k.Lexical) (hv : k.Visible) {c : Char}
    (hc : k.text.toList.head? = some c ∨ k.text.toList.getLast? = some c) :
    Text.isBlank c = false := by
  have hmem : c ∈ k.text.toList := by
    rcases hc with hc | hc
    · exact List.mem_of_head? hc
    · exact List.mem_of_getLast? hc
  cases hk : k.isWordlike with
  | false => exact isBlank_symbol hk hv c hmem
  | true =>
    cases k with
    | identifier s => exact hv c hmem
    | number s => exact hv c hmem
    | string s =>
      have : '"' = c := by
        rcases hc with hc | hc
        · simpa [text] using hc
        · simpa [getLast?_string] using hc
      exact this ▸ rfl
    | character s =>
      have : '\'' = c := by
        rcases hc with hc | hc
        · simpa [text] using hc
        · simpa [getLast?_character] using hc
      exact this ▸ rfl
    | lifetime s =>
      have : c = '\'' ∨ c ∈ s.toList := by simpa [text] using hmem
      rcases this with rfl | hs
      · rfl
      · exact hv c hs
    | _ => cases hk

/-- A token that ends in a letter is a word, and holds neither blanks nor colons. -/
theorem wordlike_of_getLast? (hl : k.Lexical) (hv : k.Visible) {c : Char}
    (hc : k.text.toList.getLast? = some c) (hw : Source.isWordPart c = true) :
    k.isWordlike = true ∧ ∀ a ∈ k.text.toList, Text.isBlank a = false ∧ a ≠ ':' := by
  have hmem := List.mem_of_getLast? hc
  have hcolon : ∀ a, Source.isWordPart a = true → a ≠ ':' := by
    rintro a ha rfl
    exact absurd ha (by decide)
  cases hk : k.isWordlike with
  | false => simp [isWordPart_symbol hk hl c hmem] at hw
  | true =>
    refine ⟨rfl, fun a ha => ?_⟩
    cases k with
    | identifier s => exact ⟨hv a ha, hcolon a (hl.2 a ha)⟩
    | number s =>
      refine ⟨hv a ha, ?_⟩
      rcases hl.2 a ha with hpart | rfl | rfl
      · exact hcolon a hpart
      · decide
      · decide
    | string s =>
      have : '"' = c := by simpa [getLast?_string] using hc
      exact absurd hw (this ▸ by decide)
    | character s =>
      have : '\'' = c := by simpa [getLast?_character] using hc
      exact absurd hw (this ▸ by decide)
    | lifetime s =>
      have : a = '\'' ∨ a ∈ s.toList := by simpa [text] using ha
      rcases this with rfl | ha
      · decide
      · exact ⟨hv a ha, hcolon a (hl.2 a ha)⟩
    | _ => cases hk

/-- Only the two symbols made of colons end in one. -/
theorem eq_of_getLast?_colon (hl : k.Lexical) (hc : k.text.toList.getLast? = some ':') :
    k = .colon ∨ k = .pathSeparator := by
  have hmem := List.mem_of_getLast? hc
  cases k with
  | colon => exact .inl rfl
  | pathSeparator => exact .inr rfl
  | punctuation p =>
    have : p = ':' := by simpa [text, Char.toString] using hc
    exact absurd this hl.2
  | identifier s => exact absurd (hl.2 _ hmem) (by decide)
  | number s => exact absurd (hl.2 _ hmem) (by decide)
  | string s => simp [getLast?_string] at hc
  | character s => simp [getLast?_character] at hc
  | lifetime s =>
    have : ':' ∈ s.toList := by simpa [text] using hmem
    exact absurd (hl.2 _ this) (by decide)
  | opening b => cases b <;> simp [text, name, Bracket.opening, Char.toString] at hc
  | closing b => cases b <;> simp [text, name, Bracket.closing, Char.toString] at hc
  | _ => simp [text, name] at hc

end Single

/-! ## Lists -/

/-- The blank between two neighbours, if there is one. -/
def gap (left right : Kind) : List Char := if left.spaced right then [' '] else []

/-- What stands before a token: the text of the tokens before it and the blank behind them. -/
def lead (before : List Kind) (k : Kind) : List Char :=
  match before.getLast? with
  | none => []
  | some last => (render before).toList ++ last.gap k

section Lists

variable {before : List Kind} {k : Kind}

theorem render_pair (before : List Kind) (last k : Kind) :
    (render (before ++ [last, k])).toList
      = (render (before ++ [last])).toList ++ last.gap k ++ k.text.toList := by
  induction before with
  | nil =>
    simp only [List.nil_append, render, gap, String.toList_append]
    split <;> rfl
  | cons a tail ih =>
    cases tail with
    | nil =>
      have hgap : (if last.spaced k then " " else "").toList = last.gap k := by
        unfold gap
        split <;> rfl
      simp [render, hgap]
    | cons b tail =>
      simp only [List.cons_append, render, String.toList_append] at ih ⊢
      rw [ih]
      simp only [List.append_assoc]

@[simp] theorem lead_concat (before : List Kind) (last k : Kind) :
    lead (before ++ [last]) k = (render (before ++ [last])).toList ++ last.gap k := by
  simp [lead]

/-- The text ends with its last token. -/
theorem render_concat (before : List Kind) (k : Kind) :
    (render (before ++ [k])).toList = lead before k ++ k.text.toList := by
  rcases List.eq_nil_or_concat before with rfl | ⟨init, last, rfl⟩
  · simp [render, lead]
  · rw [List.concat_eq_append, lead_concat, List.append_assoc, List.cons_append, List.nil_append,
      render_pair]

/-- The text starts with its first token. -/
theorem head?_render (hl : k.Lexical) (rest : List Kind) :
    (render (k :: rest)).toList.head? = k.text.toList.head? := by
  cases rest with
  | nil => rfl
  | cons b tail =>
    simp only [render, String.toList_append, List.append_assoc, List.head?_append]
    cases hk : k.text.toList.head? with
    | none => exact absurd (List.head?_eq_none_iff.1 hk) (text_ne_nil hl)
    | some c => rfl

theorem getLast?_render (hk : k.Lexical) (before : List Kind) :
    (render (before ++ [k])).toList.getLast? = k.text.toList.getLast? := by
  rw [render_concat, List.getLast?_append]
  cases hlast : k.text.toList.getLast? with
  | none => exact absurd (List.getLast?_eq_none_iff.1 hlast) (text_ne_nil hk)
  | some c => rfl

theorem isBlank_gap (left right : Kind) : ∀ c ∈ left.gap right, Text.isBlank c = true := by
  intro c hc
  unfold gap at hc
  split at hc
  · exact List.mem_singleton.1 hc ▸ rfl
  · cases hc

/-- Without blanks at its end, what stands before a token is the text of the tokens before it. -/
theorem trimEnd_lead {last : Kind} (hl : last.Lexical) (hv : last.Visible) (before : List Kind)
    (k : Kind) :
    Text.trimEnd (lead (before ++ [last]) k) = (render (before ++ [last])).toList := by
  rw [lead_concat]
  refine Text.trimEnd_append (fun c hc => ?_) (isBlank_gap last k)
  rw [getLast?_render hl] at hc
  exact isBlank_end hl hv (.inr hc)

/-- A word at the end of the text, before which nothing stands that could belong to a word, is the
last token. -/
theorem eq_lead_of_word {front word : List Char} (hl : ∀ a ∈ before ++ [k], a.Lexical)
    (hv : k.Visible) (h : (render (before ++ [k])).toList = front ++ word) (hne : word ≠ [])
    (hword : ∀ c ∈ word, Source.isWordPart c = true)
    (hfront : ∀ c, front.getLast? = some c → Text.isBlank c = true ∨ c = ':') :
    k.text.toList = word ∧ front = lead before k := by
  have hlk : k.Lexical := hl k (by simp)
  have hend : k.text.toList.getLast? = word.getLast? := by
    rw [← getLast?_render hlk before, h, List.getLast?_append]
    cases hw : word.getLast? with
    | none => exact absurd (List.getLast?_eq_none_iff.1 hw) hne
    | some c => rfl
  -- The last token ends in a letter, so it is a word, written without colons and blanks.
  obtain ⟨hwordlike, hchars⟩ : k.isWordlike = true ∧
      ∀ a ∈ k.text.toList, Text.isBlank a = false ∧ a ≠ ':' := by
    cases hw : word.getLast? with
    | none => exact absurd (List.getLast?_eq_none_iff.1 hw) hne
    | some c => exact wordlike_of_getLast? hlk hv (hend.trans hw) (hword c (List.mem_of_getLast? hw))
  rw [render_concat] at h
  have htext : k.text.toList = word := by
    rcases List.append_eq_append_iff.1 h with ⟨extra, hf, hk⟩ | ⟨extra, hp, hw⟩
    · rcases List.eq_nil_or_concat extra with rfl | ⟨init, a, rfl⟩
      · simpa using hk
      · -- The token cannot reach over the word: a blank or a colon would stand in it.
        rw [List.concat_eq_append] at hf hk
        have ha := hchars a (by simp [hk])
        rcases hfront a (by simp [hf]) with hblank | hcolon
        · simp [ha.1] at hblank
        · exact absurd hcolon ha.2
    · rcases List.eq_nil_or_concat extra with rfl | ⟨init, a, rfl⟩
      · simpa using hw.symm
      · -- Nor can it be shorter: two words have a blank between them.
        rw [List.concat_eq_append] at hp hw
        have ha : Source.isWordPart a = true := hword a (by simp [hw])
        rcases List.eq_nil_or_concat before with rfl | ⟨more, last, rfl⟩
        · simp [lead] at hp
        · rw [List.concat_eq_append] at hp hl
          rw [lead_concat] at hp
          have hlast : last.Lexical := hl last (by simp)
          have hap : ((render (more ++ [last])).toList ++ last.gap k).getLast? = some a := by
            simp [hp]
          by_cases hs : last.spaced k = true
          · have : a = ' ' := by simpa [gap, hs, eq_comm] using hap
            exact absurd ha (this ▸ by decide)
          · have hgap : last.gap k = [] := by simp [gap, hs]
            rw [hgap, List.append_nil, getLast?_render hlast] at hap
            cases hw' : last.isWordlike with
            | true => simp [spaced, hw', hwordlike] at hs
            | false =>
              have := isWordPart_symbol hw' hlast a (List.mem_of_getLast? hap)
              simp [ha] at this
  exact ⟨htext, (List.append_cancel_right (htext ▸ h)).symm⟩

end Lists

end ForeignModule.Token.Kind
