import ForeignModule.Abi.RustType
import ForeignModule.Proofs.Text.Search
import ForeignModule.Source.Segment

/-!
# The last segment of a path

The tables look for a name behind the last separator of the whole text that is left, whatever stands
in front of the path. `lastSegment_separator` says what a path in front of a name does to that, and
`readSegment_iff` when it changes what is looked up.
-/

namespace ForeignModule.Abi

variable {front before name after : List Char}

/-- What stands before the last segment ends in a colon and blanks, if there is anything. -/
theorem exists_front_of_lastSegment {text word : List Char}
    (hstart : ∀ c, text.head? = some c → Text.isBlank c = false)
    (hstop : ∀ c, text.getLast? = some c → Text.isBlank c = false)
    (h : RustType.lastSegment text = word) :
    ∃ front, text = front ++ word ∧ (front = [] ∨ (Text.trimEnd front).getLast? = some ':') := by
  obtain ⟨start, stop, htrim, hblank, hblank'⟩ :=
    Text.exists_trim ((Text.afterLast? "::".toList text).getD text)
  have hword : Text.trim ((Text.afterLast? "::".toList text).getD text) = word := h
  rw [hword] at htrim
  -- The text does not end in blanks, so the segment does not either.
  have hnil : ∀ front, text = front ++ (start ++ word ++ stop) → stop = [] := by
    intro front htext
    rcases List.eq_nil_or_concat stop with rfl | ⟨init, c, rfl⟩
    · rfl
    · have := hstop c (by simp [htext])
      simp [hblank' c (by simp)] at this
  cases hafter : Text.afterLast? "::".toList text with
  | none =>
    rw [hafter, Option.getD_none] at htrim
    have hstopnil := hnil [] htrim
    subst hstopnil
    rw [List.append_nil] at htrim
    refine ⟨start, htrim, .inl ?_⟩
    cases start with
    | nil => rfl
    | cons c rest =>
      have := hstart c (by simp [htrim])
      simp [hblank c (by simp)] at this
  | some after =>
    rw [hafter, Option.getD_some] at htrim
    obtain ⟨before, hbefore⟩ := Text.eq_append_of_afterLast? hafter
    have hstopnil := hnil (before ++ "::".toList) (by rw [← htrim]; exact hbefore)
    subst hstopnil
    rw [List.append_nil] at htrim
    refine ⟨before ++ "::".toList ++ start, by rw [hbefore, htrim]; simp, .inr ?_⟩
    have hcolon : (before ++ "::".toList).getLast? = some ':' := by simp
    rw [Text.trimEnd_append (fun c hc => ?_) hblank, hcolon]
    rw [hcolon, Option.some.injEq] at hc
    exact hc ▸ rfl

namespace RustType

/-- What ends in a separator has no part in the last segment. -/
theorem lastSegment_separator (front : List Char) {text : List Char} (h : text.head? ≠ some ':') :
    lastSegment (front ++ "::".toList ++ text) = lastSegment text := by
  unfold lastSegment
  cases hfound : Text.afterLast? "::".toList text with
  | some found => rw [Text.afterLast?_append_of_some hfound, Option.getD_some, Option.getD_some]
  | none =>
    have hmark : Text.afterLast? "::".toList ("::".toList ++ text) = some text := by
      have hone : Text.afterLast? "::".toList (':' :: text) = none := by
        rw [Text.afterLast?, hfound]
        cases text with
        | nil => rfl
        | cons c rest =>
          have hc : ':' ≠ c := by
            rintro rfl
            exact h rfl
          simp [hc]
      change Text.afterLast? "::".toList (':' :: ':' :: text) = some text
      rw [Text.afterLast?, hone]
      simp
    rw [List.append_assoc, Text.afterLast?_append_of_some hmark, Option.getD_some, Option.getD_none]

/-- What has no separator is added to the last segment of what stands in front. -/
theorem lastSegment_append {text : List Char} (hnone : Text.afterLast? "::".toList text = none)
    (h : text.head? ≠ some ':') :
    lastSegment (front ++ text) =
      Text.trim ((Text.afterLast? "::".toList front).getD front ++ text) := by
  have happend : Text.afterLast? "::".toList (front ++ text) =
      (Text.afterLast? "::".toList front).map (· ++ text) := by
    apply Text.afterLast?_append_of_none hnone
    intro k hk hpos hprefix
    obtain rfl : k = 1 := by
      have : k < 2 := hk
      omega
    obtain ⟨rest, rfl⟩ : [':'] <+: text := hprefix
    exact h rfl
  rw [lastSegment, happend]
  cases Text.afterLast? "::".toList front <;> rfl

/-! ## Names -/

/-- Can the character stand in a name? -/
def isNameChar (c : Char) : Bool := c == '#' || Source.isWordPart c && !Text.isBlank c

theorem not_isBlank_of_isNameChar {c : Char} (h : isNameChar c = true) :
    Text.isBlank c = false := by
  simp only [isNameChar, Bool.or_eq_true, Bool.and_eq_true, Bool.not_eq_true', beq_iff_eq] at h
  rcases h with rfl | h
  · decide
  · exact h.2

/-- A name may start behind this: what is right before it belongs to no name and is no quote. -/
def Fenced (front : List Char) : Prop :=
  ∀ c ∈ front.getLast?, isNameChar c = false ∧ c ≠ '"'

theorem fenced_iff :
    Fenced front ↔ (front.getLast?.all fun c => !isNameChar c && c != '"') = true := by
  unfold Fenced
  cases front.getLast? <;> simp

instance (front : List Char) : Decidable (Fenced front) := decidable_of_iff _ fenced_iff.symm

theorem Fenced.of_suffix {tail : List Char} (h : Fenced front) (hsuffix : tail <:+ front) :
    Fenced tail := by
  obtain ⟨start, rfl⟩ := hsuffix
  intro c hc
  apply h
  rw [List.getLast?_append, Option.mem_def.1 hc, Option.some_or, Option.mem_some]

/-- The words are made of characters that can stand in names. -/
def Words (words : List String) : Prop := ∀ word ∈ words, ∀ c ∈ word.toList, isNameChar c = true

instance (words : List String) : Decidable (Words words) :=
  decidable_of_iff ((words.all fun word => word.toList.all isNameChar) = true) <| by
    simp only [Words, List.all_eq_true]

/-- A whole name, and what is behind it up to the end of a text that ends in no blank. -/
structure NameAt (name after : List Char) : Prop where
  nonempty : name ≠ []
  isNameChar : ∀ c ∈ name, isNameChar c = true
  stops : ∀ c, after.head? = some c → RustType.isNameChar c = false
  trimmed : ∀ c, after.getLast? = some c → Text.isBlank c = false

namespace NameAt

theorem head? (h : NameAt name after) :
    ∀ c, (name ++ after).head? = some c → RustType.isNameChar c = true := by
  intro c hc
  obtain ⟨a, rest, rfl⟩ := List.exists_cons_of_ne_nil h.nonempty
  exact h.isNameChar c (by simp_all)

theorem head?_ne_colon (h : NameAt name after) : (name ++ after).head? ≠ some ':' := by
  intro hhead
  exact absurd (h.head? ':' hhead) (by decide)

theorem isBlank_head? (h : NameAt name after) :
    ∀ c, (name ++ after).head? = some c → Text.isBlank c = false :=
  fun c hc => not_isBlank_of_isNameChar (h.head? c hc)

theorem isBlank_getLast? (h : NameAt name after) :
    ∀ c, (name ++ after).getLast? = some c → Text.isBlank c = false := by
  intro c hc
  cases hafter : after.getLast? with
  | some d =>
    rw [List.getLast?_append, hafter, Option.some_or, Option.some.injEq] at hc
    exact hc ▸ h.trimmed d hafter
  | none =>
    rw [List.getLast?_append, hafter, Option.none_or] at hc
    exact not_isBlank_of_isNameChar (h.isNameChar c (List.mem_of_getLast? hc))

/-- Name and rest are a word from a list exactly if the rest is empty and the name is that word. -/
theorem mem_iff (h : NameAt name after) {names : List String}
    (hnames : Words names) :
    String.ofList (name ++ after) ∈ names ↔ after = [] ∧ String.ofList name ∈ names := by
  constructor
  · intro hmem
    cases after with
    | nil => exact ⟨rfl, by simpa using hmem⟩
    | cons c rest =>
      have hc := hnames _ hmem c (by simp)
      rw [h.stops c rfl] at hc
      cases hc
  · rintro ⟨rfl, hmem⟩
    rwa [List.append_nil]

/-- With no separator behind the name, the last segment begins in what stands in front. -/
theorem exists_lastSegment (h : NameAt name after)
    (hnone : Text.afterLast? "::".toList (name ++ after) = none) (front : List Char) :
    ∃ tail, tail <:+ front ∧ (tail = [] ↔ lastSegment front = []) ∧
      lastSegment (front ++ (name ++ after)) = tail ++ (name ++ after) := by
  refine ⟨Text.trimStart ((Text.afterLast? "::".toList front).getD front), ?_, ?_, ?_⟩
  · exact (List.dropWhile_suffix Text.isBlank).trans (Text.getD_afterLast?_suffix "::".toList front)
  · exact Text.trim_eq_nil_iff.symm
  · have hne : name ++ after ≠ [] := by simp [h.nonempty]
    rw [lastSegment_append hnone h.head?_ne_colon]
    simpa [Text.trimEnd] using
      Text.trim_append _ [] hne h.isBlank_head? h.isBlank_getLast?

end NameAt

/-- A path in front of a name changes what is read of the last segment exactly if the name ends the
text, is one that is looked for, and what stands before the path has a last segment itself. -/
theorem readSegment_iff {α : Type} {read : List Char → α} {other : α} {names : List String}
    (hread : ∀ segment, read segment = other ↔ String.ofList segment ∉ names)
    (hnames : Words names)
    (hname : NameAt name after) (hfront : Fenced front) (path : List Char) :
    read (lastSegment (front ++ (name ++ after))) =
        read (lastSegment (path ++ "::".toList ++ (name ++ after))) ↔
      ¬(after = [] ∧ String.ofList name ∈ names ∧ lastSegment front ≠ []) := by
  rw [lastSegment_separator path hname.head?_ne_colon]
  cases hnone : Text.afterLast? "::".toList (name ++ after) with
  | some found =>
    -- A separator behind the name hides all that is before it.
    have hafter : after ≠ [] := by
      rintro rfl
      have hmem : ':' ∉ name := fun hmem => absurd (hname.isNameChar ':' hmem) (by decide)
      have habsent : Text.afterLast? "::".toList name = none := Text.afterLast?_eq_none hmem
      rw [List.append_nil, habsent] at hnone
      cases hnone
    have hsame : lastSegment (front ++ (name ++ after)) = lastSegment (name ++ after) := by
      rw [lastSegment, lastSegment, Text.afterLast?_append_of_some hnone, hnone, Option.getD_some,
        Option.getD_some]
    simp [hsame, hafter]
  | none =>
    obtain ⟨start, hstart, -, hbare⟩ := hname.exists_lastSegment hnone []
    obtain ⟨tail, htail, hempty, hlong⟩ := hname.exists_lastSegment hnone front
    obtain rfl : start = [] := List.suffix_nil.1 hstart
    rw [List.nil_append] at hbare
    rw [hbare, hlong]
    by_cases hnil : tail = []
    · simp [hnil, hempty.1 hnil]
    · have hunread : read (tail ++ (name ++ after)) = other := by
        rw [hread]
        intro hmem
        -- The character before the name would belong to the word that is looked for.
        obtain ⟨init, c, rfl⟩ := (List.eq_nil_or_concat tail).resolve_left hnil
        have hin : isNameChar c = true := hnames _ hmem c (by simp)
        have hout := (hfront.of_suffix htail c (by simp)).1
        rw [hin] at hout
        cases hout
      have hfull : lastSegment front ≠ [] := fun h => hnil (hempty.2 h)
      rw [hunread, eq_comm, hread, hname.mem_iff hnames]
      simp [hfull]

end RustType

end ForeignModule.Abi
