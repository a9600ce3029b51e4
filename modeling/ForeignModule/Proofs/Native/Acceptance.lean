import ForeignModule.Abi.TypeMap
import ForeignModule.Native.Call
import ForeignModule.Proofs.Abi.CType

/-!
# What is shown of a type, and what its slots take

What a declaration shows of a type goes by the words that occur in its text, and how a value is passed
by the type that the text spells. The two are found apart from each other, and this is how far they
agree.

* `Abi.Tag.takesNumbers_iff`: which slots take numbers;
* `Abi.PassedAs`: what a type may be passed as that is shown as a text;
* `Abi.presentation_agrees` says how far what is shown and what is taken agree, and
  `Abi.not_presentation_agrees` has types for which they differ.
-/

namespace ForeignModule

open Native

/-! ## Numbers -/

namespace Native

/-- The value is a whole number or a floating-point number. -/
def Value.IsNumber : Value → Prop
  | .int _ | .uint _ | .float _ => True
  | .void | .bool _ | .text _ | .pointer _ | .null => False

end Native

namespace Abi

/-- Some number goes into a slot with this tag. -/
def Tag.TakesNumbers (tag : Tag) : Prop :=
  ∃ v slot, v.IsNumber ∧ Slot.ofValue tag v = .ok slot

theorem Tag.takesNumbers_iff {tag : Tag} :
    tag.TakesNumbers ↔ tag.isAddress = false ∧ tag ≠ .void := by
  constructor
  · rintro ⟨v, slot, hnumber, hslot⟩
    constructor
    · -- No number is an address.
      cases tag with
      | cstring | pointer | function =>
        cases v <;> first | exact hnumber.elim | cases hslot
      | _ => rfl
    · rintro rfl
      cases hslot
  · rintro ⟨haddress, hvoid⟩
    have hzero : ∃ slot, Slot.ofValue tag (.int 0) = .ok slot := by
      cases tag with
      | signed w => cases w <;> exact ⟨_, rfl⟩
      | unsigned w => cases w <;> exact ⟨_, rfl⟩
      | single | double | bool => exact ⟨_, rfl⟩
      | cstring | pointer | function => cases haddress
      | void => exact absurd rfl hvoid
    obtain ⟨slot, hslot⟩ := hzero
    exact ⟨.int 0, slot, trivial, hslot⟩

/-! ## Words in types -/

section

variable {b : Backend} {type word : String} {tag : Tag}

theorem exists_numberWord (h : Presentation.ofParameter b type = .number) :
    ∃ word ∈ Presentation.numberWords b, Text.contains type word = true := by
  unfold Presentation.ofParameter Presentation.ofWords at h
  split at h
  · cases h
  · split at h
    · rename_i hany
      exact List.any_eq_true.1 hany
    · cases h

theorem exists_textWord
    (h : Presentation.ofParameter b type = .buffer ∨ Presentation.ofResult b type = .text) :
    ∃ word ∈ Presentation.textWords b, Text.contains type word = true := by
  unfold Presentation.ofParameter Presentation.ofResult Presentation.ofWords at h
  by_cases hany : (Presentation.textWords b).any (Text.contains type) = true
  · exact List.any_eq_true.1 hany
  · rw [if_neg hany, if_neg hany] at h
    split at h <;> rcases h with h | h <;> cases h

/-- A word that no qualifier has, and that is in one piece, is found again in the spelling of a C
type. -/
theorem clang_cases (hwhole : (CType.Part.word word.toList).Whole)
    (hqualifier : ∀ q ∈ CType.qualifiers, ¬word.toList <:+: q.toList)
    (hword : Text.contains type word = true) (h : CType.tag? type = some tag) :
    tag = .pointer ∨ ∃ name, name = String.ofList (CType.normalize type.toList) ∧
      (name, tag) ∈ CType.table ∧ Text.contains name word = true := by
  unfold CType.tag? at h
  dsimp only at h
  split at h
  · rename_i found hfound
    obtain rfl := Option.some.inj h
    obtain ⟨before, after, htable, -⟩ := List.lookup_eq_some_iff.1 hfound
    refine .inr ⟨_, rfl, by rw [htable]; simp, ?_⟩
    have hne : word ≠ "" := fun hempty => hwhole.1 (String.toList_eq_nil_iff.2 hempty)
    rw [Text.contains_iff hne] at hword ⊢
    rw [String.toList_ofList]
    exact CType.infix_normalize hwhole.1 hwhole.2 hword hqualifier
  · split at h
    · exact .inl (Option.some.inj h).symm
    · cases h

/-- Nothing at the ends of the word is taken from the ends of a Kotlin type. -/
structure KotlinType.Stays (word : String) : Prop where
  ne : word ≠ ""
  head : ∀ c, word.toList.head? = some c → Text.isBlank c = false ∧ c ∉ "kotlin.".toList
  last : ∀ c, word.toList.getLast? = some c → Text.isBlank c = false ∧ c ≠ '?'

instance (word : String) : Decidable (KotlinType.Stays word) :=
  decidable_of_iff (word ≠ "" ∧
      (word.toList.head?.all fun c => !Text.isBlank c && decide (c ∉ "kotlin.".toList)) = true ∧
      (word.toList.getLast?.all fun c => !Text.isBlank c && decide (c ≠ '?')) = true) <| by
    simp only [Option.all_eq_true, Bool.and_eq_true, Bool.not_eq_true', decide_eq_true_eq]
    exact ⟨fun ⟨hne, hhead, hlast⟩ => ⟨hne, hhead, hlast⟩, fun h => ⟨h.ne, h.head, h.last⟩⟩

/-- Such a word in a Kotlin type is found again in its simple name. -/
theorem konan_cases (hstays : KotlinType.Stays word) (hword : Text.contains type word = true)
    (h : KotlinType.tag? type = some tag) :
    ∃ name, (name, tag) ∈ KotlinType.table ∧ Text.contains name word = true := by
  obtain ⟨hne, hhead, hlast⟩ := hstays
  obtain ⟨before, after, htable, -⟩ := List.lookup_eq_some_iff.1 h
  refine ⟨_, by rw [htable]; exact List.mem_append_right _ List.mem_cons_self, ?_⟩
  rw [Text.contains_iff hne] at hword ⊢
  have htrim := Text.infix_trim hword (fun c hc => (hhead c hc).1) fun c hc => (hlast c hc).1
  generalize hshort : ((Text.trim type.toList).reverse.dropWhile (· == '?')).reverse = short
  -- The marks of nullability stand behind the word, and the package before it.
  have hinfix : word.toList <:+: short := by
    have hsplit : Text.trim type.toList
        = short ++ ((Text.trim type.toList).reverse.takeWhile (· == '?')).reverse := by
      rw [← hshort, ← List.reverse_append, List.takeWhile_append_dropWhile, List.reverse_reverse]
    rw [hsplit] at htrim
    refine Text.infix_of_append_right htrim fun c hc hmem => (hlast c hc).2 ?_
    have := List.all_eq_true.1 List.all_takeWhile c (List.mem_reverse.1 hmem)
    simpa using this
  rw [KotlinType.simpleName, hshort, String.toList_ofList]
  cases hstrip : Text.stripStart? "kotlin.".toList short with
  | none => exact hinfix
  | some rest =>
    rw [Text.stripStart?_eq_some_iff.1 hstrip] at hinfix
    exact Text.infix_of_append_left hinfix fun c hc => (hhead c hc).2

/-- The last segment of a Rust type. -/
def lastSegment (type : String) : String :=
  .ofList (RustType.lastSegment (Text.trim type.toList))

/-- Neither blanks nor parentheses stand in the word. -/
structure RustType.Plain (word : String) : Prop where
  ne : word ≠ ""
  plain : ∀ c ∈ word.toList, Text.isBlank c = false ∧ c ∉ ['(', ')']

instance (word : String) : Decidable (RustType.Plain word) :=
  decidable_of_iff (word ≠ "" ∧
      (word.toList.all fun c => !Text.isBlank c && decide (c ∉ ['(', ')'])) = true) <| by
    simp only [List.all_eq_true, Bool.and_eq_true, Bool.not_eq_true', decide_eq_true_eq]
    exact ⟨fun ⟨hne, hplain⟩ => ⟨hne, hplain⟩, fun h => ⟨h.ne, h.plain⟩⟩

/-- A Rust type with such a word in it is an address, or is known by its last segment. -/
theorem rust_cases (hplain : RustType.Plain word) (hword : Text.contains type word = true)
    (h : RustType.tag? type = some tag) :
    tag.isAddress = true ∨ (lastSegment type, tag) ∈ RustType.table := by
  obtain ⟨hne, hplain⟩ := hplain
  have hne' : word.toList ≠ [] := fun hnil => hne (String.toList_eq_nil_iff.1 hnil)
  rw [Text.contains_iff hne] at hword
  have htrim : word.toList <:+: Text.trim type.toList :=
    Text.infix_trim hword (fun c hc => (hplain c (List.mem_of_mem_head? hc)).1)
      fun c hc => (hplain c (List.mem_of_getLast? hc)).1
  obtain ⟨c, hc⟩ := List.exists_mem_of_ne_nil _ hne'
  unfold RustType.tag? RustType.tagOf? at h
  split at h
  · exact .inl (Option.filter_eq_some_iff.1 h).2
  · unfold RustType.plainTag? at h
    split at h
    · rename_i hvoid
      have hmem := htrim.subset hc
      rcases hvoid with hnil | hunit
      · rw [hnil] at hmem
        cases hmem
      · rw [hunit] at hmem
        exact absurd hmem (hplain c hc).2
    · split at h
      · exact .inl (by rw [← Option.some.inj h]; rfl)
      · split at h
        · refine .inl ?_
          rw [← Option.some.inj h]
          split <;> rfl
        · split at h
          · refine .inl ?_
            rw [← Option.some.inj h]
            split <;> rfl
          · obtain ⟨before, after, htable, -⟩ := List.lookup_eq_some_iff.1 h
            refine .inr ?_
            rw [htable]
            exact List.mem_append_right _ List.mem_cons_self

theorem tag?_of_known : SlotType.ofText b type = .known tag →
    (match b with
      | .clang => CType.tag? type
      | .konan => KotlinType.tag? type
      | .rust => RustType.tag? type) = some tag := by
  intro h
  unfold SlotType.ofText at h
  dsimp only at h
  split at h
  · rename_i found hfound
    obtain rfl := SlotType.known.inj h
    exact hfound
  · cases h

/-! ## What is shown as a number -/

theorem known_of_number (hshown : Presentation.ofParameter b type = .number)
    (h : SlotType.ofText b type = .known tag) :
    tag ≠ .void ∧ (b = .konan → tag.isAddress = false) := by
  obtain ⟨word, hmem, hword⟩ := exists_numberWord hshown
  have htag := tag?_of_known h
  cases b with
  | clang =>
    have hwords : ∀ w ∈ Presentation.numberWords .clang, (CType.Part.word w.toList).Whole ∧
        ∀ q ∈ CType.qualifiers, ¬w.toList <:+: q.toList := by
      decide +kernel
    have htable : ∀ e ∈ CType.table, ∀ w ∈ Presentation.numberWords .clang,
        Text.contains e.1 w = true → e.2 ≠ .void := by
      decide +kernel
    obtain ⟨hwhole, hqualifier⟩ := hwords word hmem
    refine ⟨?_, nofun⟩
    rcases clang_cases hwhole hqualifier hword htag with rfl | ⟨name, -, hentry, hname⟩
    · decide
    · exact htable _ hentry word hmem hname
  | konan =>
    have hwords : ∀ w ∈ Presentation.numberWords .konan, KotlinType.Stays w := by decide +kernel
    have htable : ∀ e ∈ KotlinType.table, ∀ w ∈ Presentation.numberWords .konan,
        Text.contains e.1 w = true → e.2 ≠ .void ∧ e.2.isAddress = false := by
      decide +kernel
    obtain ⟨name, hentry, hname⟩ := konan_cases (hwords word hmem) hword htag
    obtain ⟨hvoid, haddress⟩ := htable _ hentry word hmem hname
    exact ⟨hvoid, fun _ => haddress⟩
  | rust =>
    have hwords : ∀ w ∈ Presentation.numberWords .rust, RustType.Plain w := by decide +kernel
    have htable : ∀ e ∈ RustType.table, e.2 ≠ .void := by decide
    refine ⟨?_, nofun⟩
    rcases rust_cases (hwords word hmem) hword htag with haddress | hentry
    · rintro rfl
      cases haddress
    · exact htable _ hentry

/-! ## What is shown as a text -/

/-- What a type may be passed as that is shown as a text. -/
inductive PassedAs (b : Backend) (type : String) : Tag → Prop where
  | text : PassedAs b type .cstring
  /-- Any other pointer in whose type the word occurs. -/
  | pointer (hb : b = .clang) : PassedAs b type .pointer
  | character {tag : Tag} (hb : b = .clang)
      (h : (String.ofList (CType.normalize type.toList), tag) ∈
        [("char", Tag.signed .w8), ("signed char", .signed .w8), ("unsigned char", .unsigned .w8)]) :
      PassedAs b type tag
  | address {tag : Tag} (hb : b = .rust) (h : tag.isAddress = true) : PassedAs b type tag
  | rustCharacter (hb : b = .rust) (h : lastSegment type = "c_char") :
      PassedAs b type (.signed .w8)
  /-- The word occurs in the way to a type that is something else. -/
  | elsewhere {tag : Tag} (hb : b = .rust)
      (h : ∀ word ∈ Presentation.textWords .rust, Text.contains (lastSegment type) word = false) :
      PassedAs b type tag

theorem passedAs_of_text
    (hshown : Presentation.ofParameter b type = .buffer ∨ Presentation.ofResult b type = .text)
    (h : SlotType.ofText b type = .known tag) : PassedAs b type tag := by
  obtain ⟨word, hmem, hword⟩ := exists_textWord hshown
  have htag := tag?_of_known h
  cases b with
  | clang =>
    have htable : ∀ e ∈ CType.table, Text.contains e.1 "char" = true → e.2 = .cstring ∨
        e ∈ [("char", Tag.signed .w8), ("signed char", .signed .w8),
          ("unsigned char", .unsigned .w8)] := by
      decide +kernel
    obtain rfl := List.mem_singleton.1 hmem
    rcases clang_cases (by decide) (by decide +kernel) hword htag with
      rfl | ⟨name, rfl, hentry, hname⟩
    · exact .pointer rfl
    · rcases htable _ hentry hname with htext | hcharacter
      · obtain rfl : tag = .cstring := htext
        exact .text
      · exact .character rfl hcharacter
  | konan =>
    have htable : ∀ e ∈ KotlinType.table, Text.contains e.1 "String" = true → e.2 = .cstring := by
      decide +kernel
    obtain rfl := List.mem_singleton.1 hmem
    obtain ⟨name, hentry, hname⟩ := konan_cases (by decide) hword htag
    obtain rfl : tag = .cstring := htable _ hentry hname
    exact .text
  | rust =>
    have hwords : ∀ w ∈ Presentation.textWords .rust, RustType.Plain w := by decide +kernel
    have htable : ∀ e ∈ RustType.table,
        (∃ w ∈ Presentation.textWords .rust, Text.contains e.1 w = true) →
        e.2 = .cstring ∨ e.1 = "c_char" ∧ e.2 = .signed .w8 := by
      decide +kernel
    rcases rust_cases (hwords word hmem) hword htag with haddress | hentry
    · exact .address rfl haddress
    · by_cases hlast : ∃ w ∈ Presentation.textWords .rust,
          Text.contains (lastSegment type) w = true
      · rcases htable _ hentry hlast with htext | ⟨hname, hcharacter⟩
        · obtain rfl : tag = .cstring := htext
          exact .text
        · obtain rfl : tag = .signed .w8 := hcharacter
          exact .rustCharacter rfl hname
      · refine .elsewhere rfl fun w hw => ?_
        cases hc : Text.contains (lastSegment type) w with
        | false => rfl
        | true => exact absurd ⟨w, hw, hc⟩ hlast

/-! ## Agreement -/

/-- A parameter that is shown as a number takes some number exactly if its type is known and not passed
as an address, and in Kotlin whenever its type is known. A type that is shown as a text and known is
passed as a text, as another address, or as a character, or its word stands elsewhere. -/
theorem presentation_agrees (b : Backend) (type : String) :
    (Presentation.ofParameter b type = .number →
      ((SlotType.ofText b type).tag.TakesNumbers ↔
        ∃ tag, SlotType.ofText b type = .known tag ∧ (b = .konan ∨ tag.isAddress = false))) ∧
    ((Presentation.ofParameter b type = .buffer ∨ Presentation.ofResult b type = .text) →
      ∀ tag, SlotType.ofText b type = .known tag → PassedAs b type tag) := by
  refine ⟨fun hshown => ?_, fun hshown tag htag => passedAs_of_text hshown htag⟩
  cases hslot : SlotType.ofText b type with
  | unmapped text =>
    -- What is in no table is passed like nothing at all.
    refine ⟨fun htakes => ?_, fun ⟨_, hknown, _⟩ => nomatch hknown⟩
    exact absurd rfl (Tag.takesNumbers_iff.1 htakes).2
  | known tag =>
    obtain ⟨hvoid, hkonan⟩ := known_of_number hshown hslot
    constructor
    · intro htakes
      exact ⟨tag, rfl, .inr (Tag.takesNumbers_iff.1 htakes).1⟩
    · rintro ⟨_, hknown, haddress⟩
      obtain rfl := SlotType.known.inj hknown
      exact Tag.takesNumbers_iff.2 ⟨haddress.elim hkonan id, hvoid⟩

/-- A number goes into a slot that is shown as one. -/
theorem presentation_agrees_size :
    Presentation.ofParameter .clang "const size_t" = .number ∧
      (SlotType.ofText .clang "const size_t").tag.TakesNumbers := by
  have hshown : Presentation.ofParameter .clang "const size_t" = .number := by decide +kernel
  have hslot : SlotType.ofText .clang "const size_t" = .known (.unsigned .w64) := by decide +kernel
  exact ⟨hshown, ((presentation_agrees .clang "const size_t").1 hshown).2 ⟨_, hslot, .inr rfl⟩⟩

/-- Pointers to numbers are shown as numbers, and so are types whose names only hold such a word.
Characters, and types in whose names the word for them occurs, are shown as texts. -/
theorem not_presentation_agrees :
    (∀ type ∈ ["int*", "point_t"], Presentation.ofParameter .clang type = .number ∧
      ¬(SlotType.ofText .clang type).tag.TakesNumbers) ∧
    ∀ type ∈ ["char", "wchar_t"], Presentation.ofParameter .clang type = .buffer ∧
      Presentation.ofResult .clang type = .text ∧ (SlotType.ofText .clang type).tag ≠ .cstring := by
  simp only [Tag.takesNumbers_iff]
  decide +kernel

end

end Abi

end ForeignModule
