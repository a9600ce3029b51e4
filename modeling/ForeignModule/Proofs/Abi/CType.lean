import ForeignModule.Abi.CType
import ForeignModule.Proofs.Text.Search

/-!
# The parts of C types

The text of a type is cut into words and stars, and what is left of it without qualifiers is one
spelling (`CType.normalize`).

* `parts_append`: a text that ends where a word ends is cut there;
* `infix_normalize`: what stands in a word stands in the spelling, if it is in no qualifier;
* `parts_normalize`: the spelling has the parts that are left, so it depends on nothing else and tells
  types apart by them (`normalize_eq_iff`);
* `tag?_of_bare`: words with stars behind them are a text or a pointer.
-/

namespace ForeignModule.Abi.CType

/-- The character belongs to a word. -/
def Solid (c : Char) : Prop := Text.isBlank c = false ∧ c ≠ '*'

instance (c : Char) : Decidable (Solid c) := inferInstanceAs (Decidable (_ ∧ _))

variable {c : Char} {text rest word : List Char} {ps : List Part}

theorem parts_blank (h : Text.isBlank c = true) (rest : List Char) :
    parts (c :: rest) = parts rest := by
  rw [parts.eq_def]
  exact if_pos h

theorem parts_star (rest : List Char) : parts ('*' :: rest) = .star :: parts rest := by
  rw [parts.eq_def]
  rfl

/-- A character starts a word, unless it belongs to one that goes on. -/
theorem parts_solid (h : Solid c) (rest : List Char) :
    parts (c :: rest) = match rest.head? with
      | some next => Part.extend c (decide (Solid next)) (parts rest)
      | none => [.word [c]] := by
  rw [parts.eq_def]
  dsimp only
  rw [if_neg (by simp [h.1]), if_neg h.2]
  cases rest with
  | nil => rfl
  | cons next rest =>
    have hjoins : (!Text.isBlank next && next != '*') = decide (Solid next) := by
      by_cases hstar : next = '*' <;> simp [Solid, hstar]
    simp only [hjoins, List.head?_cons]

/-- A word is in one piece. -/
theorem exists_word_of_prefix (hne : word ≠ []) (hsolid : ∀ c ∈ word, Solid c)
    (h : word <+: text) : ∃ u more, parts text = .word u :: more ∧ word <+: u := by
  induction word generalizing text with
  | nil => exact absurd rfl hne
  | cons c word ih =>
    cases text with
    | nil => simp at h
    | cons c' rest =>
      obtain ⟨rfl, hrest⟩ := List.cons_prefix_cons.1 h
      rw [parts_solid (hsolid c List.mem_cons_self)]
      cases word with
      | nil =>
        cases hhead : rest.head? with
        | none => exact ⟨[c], [], rfl, List.prefix_refl _⟩
        | some next =>
          dsimp only [Part.extend]
          split
          · exact ⟨_, _, rfl, List.cons_prefix_cons.2 ⟨rfl, List.nil_prefix⟩⟩
          · exact ⟨_, _, rfl, List.prefix_refl _⟩
      | cons next word =>
        have hsolid' : ∀ c ∈ next :: word, Solid c := fun c hc => hsolid c (List.mem_cons_of_mem _ hc)
        obtain ⟨u, more, hparts, hu⟩ := ih (by simp) hsolid' hrest
        have hhead : rest.head? = some next := by
          obtain ⟨more', rfl⟩ := hrest
          rfl
        have hnext : decide (Solid next) = true := decide_eq_true (hsolid' next List.mem_cons_self)
        rw [hhead, hparts]
        simp only [hnext, Part.extend]
        exact ⟨c :: u, more, rfl, List.cons_prefix_cons.2 ⟨rfl, hu⟩⟩

/-- A word that stands in a text stands in a word of it. -/
theorem exists_word_of_infix (hne : word ≠ []) (hsolid : ∀ c ∈ word, Solid c)
    (h : word <:+: text) : ∃ u, .word u ∈ parts text ∧ word <:+: u := by
  induction text with
  | nil => exact absurd (List.infix_nil.1 h) hne
  | cons c rest ih =>
    rcases List.infix_cons_iff.1 h with hprefix | hinfix
    · obtain ⟨u, more, hparts, hu⟩ := exists_word_of_prefix hne hsolid hprefix
      exact ⟨u, by simp [hparts], hu.isInfix⟩
    · obtain ⟨u, hmem, hu⟩ := ih hinfix
      by_cases hblank : Text.isBlank c = true
      · exact ⟨u, by rwa [parts_blank hblank], hu⟩
      · by_cases hstar : c = '*'
        · subst hstar
          exact ⟨u, by rw [parts_star]; exact List.mem_cons_of_mem _ hmem, hu⟩
        · rw [parts_solid ⟨by simpa using hblank, hstar⟩]
          cases hhead : rest.head? with
          | none =>
            rw [List.head?_eq_none_iff.1 hhead] at hmem
            cases hmem
          | some next =>
            dsimp only [Part.extend]
            split
            · rename_i w tail _ hparts
              rw [hparts] at hmem
              rcases List.mem_cons.1 hmem with hword | hmem
              · obtain rfl : u = w := by simpa using hword
                exact ⟨c :: u, List.mem_cons_self, List.infix_cons hu⟩
              · exact ⟨u, List.mem_cons_of_mem _ hmem, hu⟩
            · exact ⟨u, List.mem_cons_of_mem _ hmem, hu⟩

/-- A text is cut where no word goes on. -/
theorem parts_append {left right : List Char} (h : ∀ c ∈ right.head?, ¬Solid c) :
    parts (left ++ right) = parts left ++ parts right := by
  induction left with
  | nil => rfl
  | cons c rest ih =>
    rw [List.cons_append]
    by_cases hblank : Text.isBlank c = true
    · rw [parts_blank hblank, parts_blank hblank, ih]
    · by_cases hstar : c = '*'
      · subst hstar
        rw [parts_star, parts_star, ih, List.cons_append]
      · have hsolid : Solid c := ⟨by simpa using hblank, hstar⟩
        rw [parts_solid hsolid, parts_solid hsolid]
        cases rest with
        | nil =>
          cases hhead : right.head? with
          | none => simp [List.head?_eq_none_iff.1 hhead, parts]
          | some next => simp [hhead, Part.extend, h next hhead]
        | cons next tail =>
          rw [ih]
          simp only [List.cons_append, List.head?_cons]
          by_cases hnext : Solid next
          · -- The word goes on, and the rest of it is the first part of what follows.
            have hstart : [next] <+: next :: tail := by simp
            obtain ⟨u, more, hparts, -⟩ :=
              exists_word_of_prefix (by simp) (by simpa using hnext) hstart
            simp [hparts, hnext, Part.extend]
          · simp [hnext, Part.extend]

/-- The part could have been cut from a text. -/
def Part.Whole : Part → Prop
  | .star => True
  | .word w => w ≠ [] ∧ ∀ c ∈ w, Solid c

instance : DecidablePred Part.Whole
  | .star => isTrue trivial
  | .word w => decidable_of_iff (w ≠ [] ∧ (w.all fun c => decide (Solid c)) = true)
      (by simp [Part.Whole])

theorem parts_word (hne : word ≠ []) (hsolid : ∀ c ∈ word, Solid c) : parts word = [.word word] := by
  induction word with
  | nil => exact absurd rfl hne
  | cons c rest ih =>
    rw [parts_solid (hsolid c (by simp))]
    cases rest with
    | nil => rfl
    | cons next tail =>
      have hnext : Solid next := hsolid next (by simp)
      rw [ih (by simp) fun a ha => hsolid a (by simp [ha])]
      simp [hnext, Part.extend]

theorem whole_of_mem_parts {p : Part} (h : p ∈ parts text) : p.Whole := by
  induction text generalizing p with
  | nil => cases h
  | cons c rest ih =>
    by_cases hblank : Text.isBlank c = true
    · exact ih (by rwa [parts_blank hblank] at h)
    · by_cases hstar : c = '*'
      · subst hstar
        rw [parts_star] at h
        rcases List.mem_cons.1 h with rfl | hrest
        · trivial
        · exact ih hrest
      · have hsolid : Solid c := ⟨by simpa using hblank, hstar⟩
        have hsingle : (Part.word [c]).Whole := ⟨by simp, by simpa using hsolid⟩
        rw [parts_solid hsolid] at h
        cases hhead : rest.head? with
        | none =>
          simp only [hhead, List.mem_singleton] at h
          exact h ▸ hsingle
        | some next =>
          simp only [hhead, Part.extend] at h
          split at h
          · rename_i w tail _ hparts
            rcases List.mem_cons.1 h with rfl | hrest
            · obtain ⟨-, hw⟩ : (Part.word w).Whole := ih (by simp [hparts])
              exact ⟨by simp, by simpa using ⟨hsolid, hw⟩⟩
            · exact ih (by simp [hparts, hrest])
          · rcases List.mem_cons.1 h with rfl | hrest
            · exact hsingle
            · exact ih hrest

/-! ## Spelling -/

theorem write_append (left right : List Part) : write (left ++ right) = write left ++ write right := by
  induction left with
  | nil => rfl
  | cons p rest ih => cases p <;> simp [write, ih]

theorem write_stars (n : Nat) : write (List.replicate n .star) = List.replicate n '*' := by
  induction n with
  | zero => rfl
  | succ n ih => simp [List.replicate_succ, write, ih]

/-- No word goes on in what is written of parts. -/
theorem not_solid_write (ps : List Part) : ∀ c ∈ (write ps).head?, ¬Solid c := by
  intro c hc
  cases ps with
  | nil => cases hc
  | cons p rest =>
    cases p <;> simp [write] at hc <;> subst hc <;> decide

/-- Written parts are read again. -/
theorem parts_write (h : ∀ p ∈ ps, p.Whole) : parts (write ps) = ps := by
  induction ps with
  | nil => rfl
  | cons p rest ih =>
    have hrest := ih fun q hq => h q (by simp [hq])
    cases p with
    | star => rw [write, parts_star, hrest]
    | word w =>
      obtain ⟨hne, hsolid⟩ : (Part.word w).Whole := h _ (by simp)
      have hblank : Text.isBlank ' ' = true := by decide
      rw [write, List.cons_append, parts_blank hblank, parts_append (not_solid_write rest),
        parts_word hne hsolid, hrest]
      rfl

theorem infix_write (h : .word word ∈ ps) : word <:+: write ps := by
  induction ps with
  | nil => cases h
  | cons p rest ih =>
    rcases List.mem_cons.1 h with rfl | hmem
    · exact ⟨[' '], write rest, rfl⟩
    · cases p with
      | star => exact List.infix_cons (ih hmem)
      | word w => exact (ih hmem).trans ⟨' ' :: w, [], by simp [write]⟩

/-- What stands in a word of a type stands in the spelling of the type, if it is in no qualifier. -/
theorem infix_normalize (hne : word ≠ []) (hsolid : ∀ c ∈ word, Solid c) (h : word <:+: text)
    (hqualifier : ∀ q ∈ qualifiers, ¬word <:+: q.toList) : word <:+: normalize text := by
  obtain ⟨u, hmem, hu⟩ := exists_word_of_infix hne hsolid h
  have hkept : .word u ∈ (parts text).filter (!·.isQualifier) := by
    refine List.mem_filter.2 ⟨hmem, ?_⟩
    have hnot : String.ofList u ∉ qualifiers := fun hq => hqualifier _ hq (by simpa using hu)
    simp [Part.isQualifier, hnot]
  have hwritten : word <:+: write ((parts text).filter (!·.isQualifier)) :=
    hu.trans (infix_write hkept)
  unfold normalize
  dsimp only
  split
  · rename_i rest hspelled
    have hbehind : word <:+: [' '] ++ rest := by rwa [hspelled] at hwritten
    refine Text.infix_of_append_left hbehind fun c hc hblank => ?_
    obtain rfl := List.mem_singleton.1 hblank
    have := (hsolid ' ' (List.mem_of_mem_head? hc)).1
    exact absurd this (by decide)
  · exact hwritten

/-! ## What is left without qualifiers -/

/-- The words and stars of a type that are no qualifiers. -/
def bare (text : List Char) : List Part := (parts text).filter (!·.isQualifier)

theorem normalize_eq (text : List Char) :
    normalize text = match write (bare text) with
      | ' ' :: rest => rest
      | _ => write (bare text) := rfl

/-- The spelling of a type has the parts that are left without qualifiers. -/
theorem parts_normalize (text : List Char) : parts (normalize text) = bare text := by
  have hwhole : ∀ p ∈ bare text, p.Whole := fun p hp =>
    whole_of_mem_parts (List.mem_filter.1 hp).1
  have hblank : Text.isBlank ' ' = true := by decide
  rw [normalize_eq]
  split
  · rename_i rest hspelled
    rw [← parts_blank hblank rest, ← hspelled, parts_write hwhole]
  · exact parts_write hwhole

/-- Types are spelled alike exactly if the same words and stars are left of them. -/
theorem normalize_eq_iff {left right : List Char} :
    normalize left = normalize right ↔ bare left = bare right := by
  constructor
  · intro h
    rw [← parts_normalize, ← parts_normalize, h]
  · intro h
    rw [normalize_eq, normalize_eq, h]

/-- Types with the same words and stars besides qualifiers have the same tag. -/
theorem tag?_congr {left right : String} (h : bare left.toList = bare right.toList) :
    tag? left = tag? right := by
  simp only [tag?, normalize_eq_iff.2 h]

/-- One spelling in the table ends in a star. -/
theorem eq_of_lookup_star {spelled : List Char} {tag : Tag} (hstar : spelled.getLast? = some '*')
    (h : table.lookup (.ofList spelled) = some tag) : spelled = "char*".toList := by
  obtain ⟨_, _, htable, _⟩ := List.lookup_eq_some_iff.1 h
  have hmem : (String.ofList spelled, tag) ∈ table := by simp [htable]
  have hall : ∀ entry ∈ table, entry.1.toList.getLast? = some '*' → entry.1 = "char*" := by decide
  have hkey := hall _ hmem (by simpa using hstar)
  simpa using congrArg String.toList hkey

/-- A type that is words with stars behind them besides its qualifiers is a text or a pointer. -/
theorem tag?_of_bare {type : String} {words : List (List Char)} {n : Nat} (hne : words ≠ [])
    (h : bare type.toList = words.map .word ++ List.replicate (n + 1) .star) :
    tag? type = some (if words = ["char".toList] ∧ n = 0 then .cstring else .pointer) := by
  obtain ⟨w, more, rfl⟩ := List.exists_cons_of_ne_nil hne
  have hw : w ≠ [] := by
    have hmem : .word w ∈ bare type.toList := by simp [h]
    exact (whole_of_mem_parts (List.mem_filter.1 hmem).1).1
  have hspelled : normalize type.toList
      = w ++ write (more.map .word) ++ List.replicate (n + 1) '*' := by
    rw [normalize_eq, h, write_append, write_stars]
    simp [write]
  have hstar : (normalize type.toList).getLast? = some '*' := by
    rw [hspelled, List.replicate_succ', ← List.append_assoc, List.getLast?_concat]
  by_cases hchar : w :: more = ["char".toList] ∧ n = 0
  · obtain ⟨hword, rfl⟩ := hchar
    injection hword with hword hmore
    have htext : normalize type.toList = "char*".toList := by
      rw [hspelled, hword, hmore]
      rfl
    have hlookup : table.lookup (.ofList "char*".toList) = some .cstring := by decide
    simp only [tag?, htext, hlookup]
    simp [hword, hmore]
  · have hlookup : table.lookup (.ofList (normalize type.toList)) = none := by
      cases hfound : table.lookup (.ofList (normalize type.toList)) with
      | none => rfl
      | some tag =>
        -- Read again, the one spelling that ends in a star is the word and the star in question.
        have hparts := parts_normalize type.toList
        have hsample : parts "char*".toList = [.word "char".toList, .star] := by decide
        rw [eq_of_lookup_star hstar hfound, h, hsample] at hparts
        refine absurd ?_ hchar
        cases more <;> cases n <;> simp_all [List.replicate_succ]
    have hlength : 1 < (normalize type.toList).length := by
      have : 0 < w.length := List.length_pos_iff.2 hw
      rw [hspelled]
      simp only [List.length_append, List.length_replicate]
      omega
    simp only [tag?, hlookup, hstar, hlength, hchar, and_self, if_true, if_false]

end ForeignModule.Abi.CType
