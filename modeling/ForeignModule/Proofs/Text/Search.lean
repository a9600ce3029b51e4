import ForeignModule.Text.Blank
import ForeignModule.Text.Search
import Mathlib.Data.List.TakeWhile

/-!
# Finds and trimmed texts

What the last occurrence of a mark and the blanks around a text say about the text itself, and what
is found in a text that was put together from its parts. A number is told by its digits
(`toString_nat_inj`).
-/

namespace ForeignModule.Text

variable {mark text before after rest : List Char}

@[simp] theorem stripStart?_append (start rest : List Char) :
    stripStart? start (start ++ rest) = some rest :=
  stripStart?_eq_some_iff.2 rfl

@[simp] theorem stripEnd?_append (rest stop : List Char) :
    stripEnd? stop (rest ++ stop) = some rest :=
  stripEnd?_eq_some_iff.2 rfl

section Append

variable {start front : List Char}

/-- What starts two texts starts the first of them, unless it goes on in the second. -/
theorem prefix_append_iff
    (h : ∀ k < start.length, front = start.take k → ¬start.drop k <+: rest) :
    start <+: front ++ rest ↔ start <+: front := by
  constructor
  · intro hprefix
    rcases List.prefix_or_prefix_of_prefix hprefix (List.prefix_append front rest) with
      hfront | ⟨more, rfl⟩
    · exact hfront
    · -- The start is the whole first text and `more`, which must be nothing.
      cases more with
      | nil => simp
      | cons c more =>
        refine absurd ?_ (h front.length (by simp) (by simp))
        rw [List.drop_left]
        exact (List.prefix_append_right_inj front).1 hprefix
  · intro hprefix
    exact hprefix.trans (List.prefix_append front rest)

theorem stripStart?_append_right
    (h : ∀ k < start.length, front = start.take k → ¬start.drop k <+: rest) :
    stripStart? start (front ++ rest) = (stripStart? start front).map (· ++ rest) := by
  cases hfront : stripStart? start front with
  | some found =>
    rw [stripStart?_eq_some_iff.1 hfront, List.append_assoc, stripStart?_append, Option.map_some]
  | none =>
    cases hboth : stripStart? start (front ++ rest) with
    | none => rfl
    | some found =>
      have hprefix : start <+: front ++ rest := ⟨found, (stripStart?_eq_some_iff.1 hboth).symm⟩
      obtain ⟨more, hmore⟩ := (prefix_append_iff h).1 hprefix
      rw [← hmore, stripStart?_append] at hfront
      cases hfront

end Append

theorem stripEnd?_eq_none_of_getLast? {stop : Char} (h : text.getLast? ≠ some stop) :
    stripEnd? [stop] text = none := by
  cases hfound : stripEnd? [stop] text with
  | none => rfl
  | some found =>
    rw [stripEnd?_eq_some_iff.1 hfound, List.getLast?_concat] at h
    exact absurd rfl h

/-- What stands before a sign that comes up there for the first time. -/
theorem takeWhile_before {front rest : List Char} {stop : Char} (h : ∀ c ∈ front, c ≠ stop) :
    (front ++ stop :: rest).takeWhile (· != stop) = front := by
  rw [List.takeWhile_append_of_pos (by simpa using h), List.takeWhile_cons]
  simp

/-- What holds of a separator and of all parts holds of the parts with separators between them. -/
theorem forall_mem_intercalate {P : Char → Prop} {separator : List Char}
    {parts : List (List Char)} (hseparator : ∀ c ∈ separator, P c)
    (hparts : ∀ part ∈ parts, ∀ c ∈ part, P c) : ∀ c ∈ separator.intercalate parts, P c := by
  induction parts with
  | nil => simp
  | cons part rest ih =>
    obtain ⟨hpart, hrest⟩ := List.forall_mem_cons.1 hparts
    cases rest with
    | nil => simpa using hpart
    | cons next rest =>
      rw [List.intercalate_cons_cons]
      intro c hc
      rcases List.mem_append.1 hc with hc | hc
      · rcases List.mem_append.1 hc with hc | hc
        · exact hpart c hc
        · exact hseparator c hc
      · exact ih hrest c hc

theorem eq_append_of_afterLast? (h : afterLast? mark text = some after) :
    ∃ before, text = before ++ mark ++ after := by
  induction text with
  | nil => simp [afterLast?] at h
  | cons c rest ih =>
    unfold afterLast? at h
    split at h
    · rename_i found hfound
      obtain ⟨before, hrest⟩ := ih (hfound.trans h)
      exact ⟨c :: before, by rw [hrest]; rfl⟩
    · split at h
      · rename_i hprefix
        obtain ⟨tail, htail⟩ := List.isPrefixOf_iff_prefix.1 hprefix
        refine ⟨[], ?_⟩
        rw [← htail] at h ⊢
        simp only [List.drop_left, Option.some.injEq] at h
        rw [h]
        rfl
      · cases h

/-- What is taken behind the last mark, or else the whole text, ends the text. -/
theorem getD_afterLast?_suffix (mark text : List Char) :
    (afterLast? mark text).getD text <:+ text := by
  cases h : afterLast? mark text with
  | none => exact List.suffix_refl text
  | some after =>
    obtain ⟨before, hbefore⟩ := eq_append_of_afterLast? h
    exact ⟨before ++ mark, hbefore.symm⟩

theorem afterLast?_eq_none {c : Char} (h : c ∉ text) : afterLast? (c :: mark) text = none := by
  induction text with
  | nil => rfl
  | cons a rest ih =>
    simp only [List.mem_cons, not_or] at h
    have ha : (c == a) = false := by simpa using h.1
    simp only [afterLast?, ih h.2, List.isPrefixOf, ha, Bool.false_and, Bool.false_eq_true, if_false]

/-- The last occurrence in two texts is in the second, if there is one in it. -/
theorem afterLast?_append_of_some (h : afterLast? mark rest = some after) :
    afterLast? mark (before ++ rest) = some after := by
  induction before with
  | nil => exact h
  | cons c before ih => rw [List.cons_append, afterLast?, ih]

/-- The last occurrence in two texts is in the first, if there is none in the second and the mark
does not go on from the first to the second. -/
theorem afterLast?_append_of_none (hrest : afterLast? mark rest = none)
    (h : ∀ k < mark.length, 0 < k → ¬mark.drop k <+: rest) :
    afterLast? mark (before ++ rest) = (afterLast? mark before).map (· ++ rest) := by
  induction before with
  | nil => exact hrest
  | cons c before ih =>
    have hprefix : mark.isPrefixOf (c :: before ++ rest) = mark.isPrefixOf (c :: before) := by
      rw [Bool.eq_iff_iff, List.isPrefixOf_iff_prefix, List.isPrefixOf_iff_prefix]
      apply prefix_append_iff
      intro k hk htake
      have hpos : 0 < k := by
        rcases Nat.eq_zero_or_pos k with rfl | hpos
        · simp at htake
        · exact hpos
      exact h k hk hpos
    simp only [List.cons_append] at hprefix ⊢
    rw [afterLast?, afterLast?, ih]
    cases afterLast? mark before with
    | some found => rfl
    | none =>
      simp only [Option.map_none, hprefix]
      split
      · rename_i hmark
        obtain ⟨tail, htail⟩ := List.isPrefixOf_iff_prefix.1 hmark
        rw [← List.cons_append, ← htail, List.append_assoc, List.drop_left, List.drop_left,
          Option.map_some]
      · rfl

/-- Behind the last separator of a path comes what has no colon. -/
theorem afterLast?_separator (h : ':' ∉ after) :
    afterLast? "::".toList (before ++ ("::".toList ++ after)) = some after := by
  induction before with
  | nil =>
    have hnone : afterLast? "::".toList after = none := afterLast?_eq_none h
    have hone : afterLast? "::".toList (':' :: after) = none := by
      cases after with
      | nil => rfl
      | cons a rest =>
        have ha : ':' ≠ a := by
          simp only [List.mem_cons, not_or] at h
          exact h.1
        rw [afterLast?, hnone]
        simp [ha]
    change afterLast? "::".toList (':' :: ':' :: after) = some after
    rw [afterLast?, hone]
    simp
  | cons c tail ih => rw [List.cons_append, afterLast?, ih]

/-! ## Words -/

theorem before?_isSome (word text : List Char) (hne : word ≠ []) :
    (before? word text).isSome = true ↔ word <:+: text := by
  induction text with
  | nil => simp [before?, hne]
  | cons c rest ih =>
    rw [List.infix_cons_iff, ← ih, before?]
    by_cases hstart : word.isPrefixOf (c :: rest) = true
    · simp [List.isPrefixOf_iff_prefix.1 hstart, hstart]
    · have hnot : ¬word <+: c :: rest := fun h => hstart (List.isPrefixOf_iff_prefix.2 h)
      simp [hstart, hnot]

/-- A word is found where it stands in the text. -/
theorem contains_iff {text word : String} (hne : word ≠ "") :
    contains text word = true ↔ word.toList <:+: text.toList :=
  before?_isSome _ _ fun h => hne (String.toList_eq_nil_iff.1 h)

/-- A word that begins with something else than what stands at the start stands behind that. -/
theorem infix_of_append_left {word before after : List Char} (h : word <:+: before ++ after)
    (hhead : ∀ c, word.head? = some c → c ∉ before) : word <:+: after := by
  induction before with
  | nil => exact h
  | cons b rest ih =>
    rcases List.infix_cons_iff.1 h with hprefix | hinfix
    · cases word with
      | nil => exact List.nil_infix
      | cons c word =>
        obtain ⟨rfl, -⟩ := List.cons_prefix_cons.1 hprefix
        exact absurd List.mem_cons_self (hhead _ rfl)
    · exact ih hinfix fun c hc hmem => hhead c hc (List.mem_cons_of_mem _ hmem)

/-- A word that ends in something else than what stands at the end stands before that. -/
theorem infix_of_append_right {word before after : List Char} (h : word <:+: before ++ after)
    (hlast : ∀ c, word.getLast? = some c → c ∉ after) : word <:+: before := by
  rw [← List.reverse_infix, List.reverse_append] at h
  rw [← List.reverse_infix]
  refine infix_of_append_left h fun c hc => ?_
  rw [List.head?_reverse] at hc
  rw [List.mem_reverse]
  exact hlast c hc

/-! ## Trimming -/

theorem exists_trimStart (text : List Char) :
    ∃ start, text = start ++ trimStart text ∧ ∀ c ∈ start, isBlank c = true :=
  ⟨text.takeWhile isBlank, List.takeWhile_append_dropWhile.symm,
    List.all_eq_true.1 List.all_takeWhile⟩

theorem exists_trimEnd (text : List Char) :
    ∃ stop, text = trimEnd text ++ stop ∧ ∀ c ∈ stop, isBlank c = true := by
  obtain ⟨start, hstart, hblank⟩ := exists_trimStart text.reverse
  refine ⟨start.reverse, ?_, fun c hc => hblank c (List.mem_reverse.1 hc)⟩
  have := congrArg List.reverse hstart
  simpa [trimEnd, trimStart] using this

theorem trimStart_eq_self (h : ∀ c, text.head? = some c → isBlank c = false) :
    trimStart text = text := by
  cases text with
  | nil => rfl
  | cons c rest => simp [trimStart, h c rfl]

/-- Blanks at the end are dropped up to the last character that is none. -/
theorem trimEnd_append {stop : List Char} (h : ∀ c, text.getLast? = some c → isBlank c = false)
    (hstop : ∀ c ∈ stop, isBlank c = true) : trimEnd (text ++ stop) = text := by
  have hrev : trimStart text.reverse = text.reverse := by
    refine trimStart_eq_self fun c hc => h c ?_
    rwa [List.head?_reverse] at hc
  unfold trimEnd
  rw [List.reverse_append, List.dropWhile_append_of_pos (by simpa using hstop)]
  change (trimStart text.reverse).reverse = text
  rw [hrev, List.reverse_reverse]

theorem trim_eq_self (hstart : ∀ c, text.head? = some c → isBlank c = false)
    (hstop : ∀ c, text.getLast? = some c → isBlank c = false) : trim text = text := by
  have hend : trimEnd (text ++ []) = text := trimEnd_append hstop (by simp)
  rw [List.append_nil] at hend
  rw [trim, trimStart_eq_self hstart, hend]

theorem trimStart_append_left (hstart : ∀ c, text.head? = some c → isBlank c = false) :
    trimStart (before ++ text) = trimStart before ++ text := by
  have hsplit : trimStart (before ++ text) =
      if (trimStart before).isEmpty then trimStart text else trimStart before ++ text :=
    List.dropWhile_append
  rw [hsplit]
  split
  · rename_i hempty
    rw [List.isEmpty_iff.1 hempty, trimStart_eq_self hstart, List.nil_append]
  · rfl

theorem trimEnd_append_right (hstop : ∀ c, text.getLast? = some c → isBlank c = false) :
    trimEnd (text ++ after) = text ++ trimEnd after := by
  have hrev : trimStart (text ++ after).reverse = trimStart after.reverse ++ text.reverse := by
    rw [List.reverse_append]
    apply trimStart_append_left
    intro c hc
    exact hstop c (by rwa [List.head?_reverse] at hc)
  change (trimStart (text ++ after).reverse).reverse = text ++ (trimStart after.reverse).reverse
  rw [hrev, List.reverse_append, List.reverse_reverse]

/-- Blanks are dropped before and behind what has none at its ends. -/
theorem trim_append (before after : List Char) (hne : text ≠ []) (hstart : ∀ c, text.head? = some c → isBlank c = false)
    (hstop : ∀ c, text.getLast? = some c → isBlank c = false) :
    trim (before ++ text ++ after) = trimStart before ++ text ++ trimEnd after := by
  have hfront : trimStart (before ++ text ++ after) = trimStart before ++ text ++ after := by
    rw [List.append_assoc, List.append_assoc]
    apply trimStart_append_left
    intro c hc
    exact hstart c (by rwa [List.head?_append, Option.or_of_isSome (by simpa using hne)] at hc)
  rw [trim, hfront]
  apply trimEnd_append_right
  intro c hc
  exact hstop c (by rwa [List.getLast?_append, Option.or_of_isSome (by simpa using hne)] at hc)

/-- What is left at the end is no blank. -/
theorem getLast?_trimEnd {c : Char} (h : (trimEnd text).getLast? = some c) : isBlank c = false := by
  have hhead := List.head?_dropWhile_not isBlank text.reverse
  rw [trimEnd, List.getLast?_reverse] at h
  rwa [h] at hhead

theorem trim_eq_nil_iff : trim text = [] ↔ trimStart text = [] := by
  constructor
  · intro h
    obtain ⟨stop, hstop, hblank⟩ := exists_trimEnd (trimStart text)
    have hend : trimEnd (trimStart text) = [] := h
    rw [hend, List.nil_append] at hstop
    -- What is left starts with no blank, but it is all blanks.
    cases stop with
    | nil => exact hstop
    | cons c rest =>
      have hhead := List.head?_dropWhile_not isBlank text
      rw [trimStart] at hstop
      rw [hstop] at hhead
      simp [hblank c List.mem_cons_self] at hhead
  · intro h
    rw [trim, h]
    rfl

/-- A text is its trimmed form between blanks. -/
theorem exists_trim (text : List Char) :
    ∃ start stop, text = start ++ trim text ++ stop ∧
      (∀ c ∈ start, isBlank c = true) ∧ ∀ c ∈ stop, isBlank c = true := by
  obtain ⟨start, hstart, hblank⟩ := exists_trimStart text
  obtain ⟨stop, hstop, hblank'⟩ := exists_trimEnd (trimStart text)
  refine ⟨start, stop, ?_, hblank, hblank'⟩
  rw [List.append_assoc, trim, ← hstop]
  exact hstart

/-- A word with no blanks at its ends stands in the trimmed text. -/
theorem infix_trim {word : List Char} (h : word <:+: text)
    (hhead : ∀ c, word.head? = some c → isBlank c = false)
    (hlast : ∀ c, word.getLast? = some c → isBlank c = false) : word <:+: trim text := by
  obtain ⟨start, stop, htext, hstart, hstop⟩ := exists_trim text
  rw [htext] at h
  have hfront := infix_of_append_right h fun c hc hmem => by simpa [hlast c hc] using hstop c hmem
  exact infix_of_append_left hfront fun c hc hmem => by simpa [hhead c hc] using hstart c hmem

/-! ## Decimal numbers -/

section Decimal

variable {n m : Nat} {c : Char}

theorem isDigit_of_mem_toString (h : c ∈ (toString n).toList) : c.isDigit = true := by
  have htext : (toString n).toList = Nat.toDigits 10 n := by simp
  rw [htext] at h
  exact Nat.isDigit_of_mem_toDigits (by decide) (by decide) h

/-- A number is read back from its digits. -/
theorem toString_nat_inj (h : toString n = toString m) : n = m := by
  have hdigits : Nat.toDigits 10 n = Nat.toDigits 10 m := by simpa using congrArg String.toList h
  have hsame := congrArg (Nat.ofDigitChars 10 · 0) hdigits
  simpa [Nat.ofDigitChars_toDigits] using hsame

end Decimal

end ForeignModule.Text
