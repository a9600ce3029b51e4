import ForeignModule.Abi.TypeMap
import ForeignModule.Proofs.Text.Search

/-!
# Options in Rust signatures

An `Option` is as wide as a pointer only around what is never null, a function pointer or a
reference (`RustType.keepsLayout`). The type tables ask for the tag of the payload instead, and so
let pass what has an address inside it, under any number of options.

* `RustType.any_isAddress_tagOf?`: a type is passed as an address exactly if what is innermost in
  its options is written like one;
* `optionSound_of_kept`: around a reference, or a function pointer that the table knows, an `Option`
  is known and passed like its payload;
* `optionSound_iff`: an `Option` is read as it should be, unless its payload is no function pointer
  and no reference but has an address innermost.
-/

namespace ForeignModule.Abi

namespace RustType

/-! ## Payloads that are never null -/

/-- What is behind the lifetimes that a function pointer binds, as in `for<'a> fn(&'a u8)`. -/
def afterBinder (text : List Char) : List Char :=
  match Text.stripStart? "for<".toList text with
  | some rest => Text.trimStart ((rest.dropWhile (· != '>')).drop 1)
  | none => text

/-- What is behind the calling convention, which has a name or goes without one. -/
def afterConvention (text : List Char) : List Char :=
  match Text.stripStart? "extern ".toList text with
  | some rest =>
    match Text.stripStart? ['"'] (Text.trimStart rest) with
    | some named => Text.trimStart ((named.dropWhile (· != '"')).drop 1)
    | none => Text.trimStart rest
  | none => text

/-- Is this a function pointer, in any calling convention and with any lifetimes? -/
def isFunctionPointer (text : List Char) : Bool :=
  match Text.stripStart? "fn".toList
      (afterConvention (Text.trimStart (dropStart "unsafe " (afterBinder text)))) with
  | some rest => (Text.trimStart rest).head? == some '('
  | none => false

/-- Is this a reference? -/
def isReference (text : List Char) : Bool := text.head? == some '&'

/-- Has an `Option` around this the layout of one pointer? That is so for what is never null. -/
def keepsLayout (text : List Char) : Bool := isFunctionPointer text || isReference text

/-! ## Layers of options -/

/-- What is inside all the options, if there are any. -/
def innermost (text : List Char) : List Char :=
  match _h : payload? text with
  | some inner => innermost (Text.trim inner)
  | none => text
termination_by text.length
decreasing_by
  exact Nat.lt_of_le_of_lt (length_trim_le inner) (length_payload_lt _h)

/-- Is this, when it is no option, written like something that is passed as an address? -/
def isAddressForm (text : List Char) : Bool :=
  isFunction text || (pointee? text).isSome || (referent? text).isSome ||
    lastSegment text == "CStr".toList

/-- Does the table take this payload for an address, though an `Option` around it is no pointer? -/
def isLoose (payload : List Char) : Bool :=
  !keepsLayout payload && isAddressForm (innermost payload)

variable {text inner : List Char}

theorem tagOf?_of_payload (h : payload? text = some inner) :
    tagOf? text = (tagOf? (Text.trim inner)).filter Tag.isAddress := by
  rw [tagOf?.eq_def]
  split <;> simp_all

theorem tagOf?_of_plain (h : payload? text = none) : tagOf? text = plainTag? text := by
  rw [tagOf?.eq_def]
  split <;> simp_all

theorem innermost_of_payload (h : payload? text = some inner) :
    innermost text = innermost (Text.trim inner) := by
  rw [innermost.eq_def]
  split <;> simp_all

theorem innermost_of_plain (h : payload? text = none) : innermost text = text := by
  rw [innermost.eq_def]
  split <;> simp_all

/-- Only one name in the table is that of an address. -/
theorem any_isAddress_lookup (name : List Char) :
    (table.lookup (.ofList name)).any Tag.isAddress = (name == "CStr".toList) := by
  by_cases h : name = "CStr".toList
  · subst h
    decide
  · have hnone : (table.lookup (.ofList name)).any Tag.isAddress = false := by
      cases hfound : table.lookup (.ofList name) with
      | none => rfl
      | some tag =>
        obtain ⟨_, _, htable, _⟩ := List.lookup_eq_some_iff.1 hfound
        have hmem : (String.ofList name, tag) ∈ table := by simp [htable]
        have hall : ∀ entry ∈ table, entry.2.isAddress = true → entry.1 = "CStr" := by decide
        cases haddress : tag.isAddress with
        | false => simpa using haddress
        | true => exact absurd (by simpa using congrArg String.toList (hall _ hmem haddress)) h
    rw [hnone]
    simpa using h

theorem any_isAddress_plainTag? (text : List Char) :
    (plainTag? text).any Tag.isAddress = isAddressForm text := by
  unfold plainTag? isAddressForm
  by_cases hvoid : text = [] ∨ text = ['(', ')']
  · rw [if_pos hvoid]
    rcases hvoid with rfl | rfl <;> decide
  · rw [if_neg hvoid]
    cases hfunction : isFunction text with
    | true => simp [Tag.isAddress]
    | false =>
      simp only [Bool.false_eq_true, if_false, Bool.false_or]
      cases pointee? text with
      | some target => simp only [Option.any_some]; split <;> rfl
      | none =>
        cases referent? text with
        | some target => simp only [Option.any_some]; split <;> rfl
        | none => exact any_isAddress_lookup _

theorem any_filter_isAddress (tag? : Option Tag) :
    (tag?.filter Tag.isAddress).any Tag.isAddress = tag?.any Tag.isAddress := by
  cases tag? with
  | none => rfl
  | some tag => cases h : tag.isAddress <;> simp [Option.filter, h]

/-- A type is passed as an address exactly if what is innermost in it is written like one. -/
theorem any_isAddress_tagOf? (text : List Char) :
    (tagOf? text).any Tag.isAddress = isAddressForm (innermost text) := by
  induction text using innermost.induct with
  | case1 text inner h ih =>
    rw [tagOf?_of_payload h, innermost_of_payload h, any_filter_isAddress, ih]
  | case2 text h => rw [tagOf?_of_plain h, innermost_of_plain h, any_isAddress_plainTag?]

/-! ## What the table itself takes for a function pointer -/

theorem eq_dropStart (start : String) (text : List Char) :
    text = dropStart start text ∨ text = start.toList ++ dropStart start text := by
  unfold dropStart
  cases hstrip : Text.stripStart? start.toList text with
  | none => exact .inl rfl
  | some rest => exact .inr (Text.stripStart?_eq_some_iff.1 hstrip)

/-- The starts by which the table knows a function pointer. -/
def functionStarts : List String :=
  ["fn(", "extern \"C\" fn(", "unsafe fn(", "unsafe extern \"C\" fn("]

theorem exists_of_isFunction (h : isFunction text = true) :
    ∃ start ∈ functionStarts, ∃ rest, text = start.toList ++ rest := by
  obtain ⟨rest, hrest⟩ := List.isPrefixOf_iff_prefix.1 h
  have hconvention := eq_dropStart "extern \"C\" " (dropStart "unsafe " text)
  rw [← hrest] at hconvention
  rcases eq_dropStart "unsafe " text with hsafe | hmarked
  · rcases hconvention with hplain | hextern
    · exact ⟨"fn(", by decide, rest, hsafe.trans hplain⟩
    · exact ⟨"extern \"C\" fn(", by decide, rest, by rw [hsafe, hextern]; simp⟩
  · rcases hconvention with hplain | hextern
    · exact ⟨"unsafe fn(", by decide, rest, by rw [hmarked, hplain]; simp⟩
    · exact ⟨"unsafe extern \"C\" fn(", by decide, rest, by rw [hmarked, hextern]; simp⟩

theorem isFunctionPointer_of_isFunction (h : isFunction text = true) :
    isFunctionPointer text = true := by
  obtain ⟨start, hstart, rest, rfl⟩ := exists_of_isFunction h
  simp only [functionStarts, List.mem_cons, List.not_mem_nil, or_false] at hstart
  rcases hstart with rfl | rfl | rfl | rfl <;> rfl

theorem keepsLayout_of_kept (h : (isFunction text || isReference text) = true) :
    keepsLayout text = true := by
  rcases Bool.or_eq_true_iff.1 h with hfunction | hreference
  · simp [keepsLayout, isFunctionPointer_of_isFunction hfunction]
  · simp [keepsLayout, hreference]

theorem payload?_eq_none (h : text.head? ≠ some 'O') : payload? text = none := by
  cases hpayload : payload? text with
  | none => rfl
  | some inner =>
    obtain ⟨rest, hrest, -⟩ := Option.bind_eq_some_iff.1 hpayload
    rw [Text.stripStart?_eq_some_iff.1 hrest] at h
    exact absurd rfl h

/-- A function pointer that the table knows and a reference are passed as addresses. -/
theorem any_isAddress_of_kept (h : (isFunction text || isReference text) = true) :
    (tagOf? text).any Tag.isAddress = true := by
  rw [any_isAddress_tagOf?]
  rcases Bool.or_eq_true_iff.1 h with hfunction | hreference
  · obtain ⟨start, hstart, rest, htext⟩ := exists_of_isFunction hfunction
    have hplain : payload? text = none := by
      have hhead : ∀ start ∈ functionStarts, ∃ c more, start.toList = c :: more ∧ c ≠ 'O' := by
        simp [functionStarts]
      obtain ⟨c, more, hc, hne⟩ := hhead start hstart
      apply payload?_eq_none
      simpa [htext, hc] using hne
    rw [innermost_of_plain hplain, isAddressForm, hfunction]
    rfl
  · have hhead : text.head? = some '&' := by simpa [isReference] using hreference
    obtain ⟨rest, rfl⟩ := List.head?_eq_some_iff.1 hhead
    rw [innermost_of_plain (payload?_eq_none (by simp))]
    have hreferent : (referent? ('&' :: rest)).isSome = true := by
      simp [referent?, Text.stripStart?]
    simp [isAddressForm, hreferent]

end RustType

/-! ## The slot of an option -/

section Option

/-- The text of an option around a type. -/
def optionOf (payload : String) : String := "Option<" ++ payload ++ ">"

/-- An option is known only as an address, and only around what is never null. -/
structure OptionSound (payload : String) (slot : SlotType) : Prop where
  address {tag : Tag} : slot = .known tag → tag.isAddress = true ∧
    slot = SlotType.ofText .rust payload ∧ RustType.keepsLayout (Text.trim payload.toList) = true
  unmapped : RustType.keepsLayout (Text.trim payload.toList) = false →
    slot = .unmapped (optionOf payload)

variable (payload : String)

theorem trim_optionOf : Text.trim (optionOf payload).toList = (optionOf payload).toList := by
  apply Text.trim_eq_self
  · intro c hc
    obtain rfl : 'O' = c := by simpa [optionOf] using hc
    decide
  · intro c hc
    have hlast : (optionOf payload).toList.getLast? = some '>' := by
      simp [optionOf, List.getLast?_cons]
    obtain rfl : '>' = c := by simpa [hlast] using hc
    decide

theorem payload?_optionOf : RustType.payload? (optionOf payload).toList = some payload.toList := by
  have htext : (optionOf payload).toList = "Option<".toList ++ (payload.toList ++ ['>']) := by
    simp [optionOf]
  rw [RustType.payload?, htext, Text.stripStart?_append, Option.bind_some, Text.stripEnd?_append]

/-- The slot of an option is that of its payload, if that is an address. -/
theorem ofText_optionOf :
    SlotType.ofText .rust (optionOf payload) =
      ((RustType.tagOf? (Text.trim payload.toList)).filter Tag.isAddress).elim
        (.unmapped (optionOf payload)) .known := by
  unfold SlotType.ofText RustType.tag?
  simp only [trim_optionOf, RustType.tagOf?_of_payload (payload?_optionOf payload),
    String.ofList_toList]
  cases (RustType.tagOf? (Text.trim payload.toList)).filter Tag.isAddress <;> rfl

/-- An option around what is never null is known, and passed like its payload, if that is a
reference or a function pointer that the table knows. -/
theorem optionSound_of_kept (h : (RustType.isFunction (Text.trim payload.toList) ||
      RustType.isReference (Text.trim payload.toList)) = true) :
    OptionSound payload (SlotType.ofText .rust (optionOf payload)) ∧
      (SlotType.ofText .rust (optionOf payload)).isUnmapped = false := by
  have haddress := RustType.any_isAddress_of_kept h
  have hkeeps := RustType.keepsLayout_of_kept h
  rw [ofText_optionOf]
  cases htag : RustType.tagOf? (Text.trim payload.toList) with
  | none => simp [htag] at haddress
  | some tag =>
    have hkind : tag.isAddress = true := by simpa [htag] using haddress
    have hpayload : SlotType.ofText .rust payload = .known tag := by
      simp [SlotType.ofText, RustType.tag?, htag]
    simp only [Option.filter, hkind, if_true]
    refine ⟨⟨?_, fun hnot => by simp [hkeeps] at hnot⟩, rfl⟩
    rintro _ ⟨⟩
    exact ⟨hkind, hpayload.symm, hkeeps⟩

/-- An option is read as it should be, unless its payload is no function pointer and no reference
but has an address innermost. -/
theorem optionSound_iff :
    OptionSound payload (SlotType.ofText .rust (optionOf payload)) ↔
      RustType.isLoose (Text.trim payload.toList) = false := by
  have haddress := RustType.any_isAddress_tagOf? (Text.trim payload.toList)
  rw [ofText_optionOf, RustType.isLoose, ← haddress]
  cases htag : RustType.tagOf? (Text.trim payload.toList) with
  | none => exact ⟨fun _ => by simp, fun _ => ⟨fun h => by simp at h, fun _ => rfl⟩⟩
  | some tag =>
    have hpayload : SlotType.ofText .rust payload = .known tag := by
      simp [SlotType.ofText, RustType.tag?, htag]
    cases hkind : tag.isAddress with
    | false =>
      simp only [Option.filter, hkind, Option.any_some, Bool.and_false]
      exact ⟨fun _ => trivial, fun _ => ⟨fun h => by simp at h, fun _ => rfl⟩⟩
    | true =>
      simp only [Option.filter, hkind, Option.any_some, Bool.and_true, if_true,
        Bool.not_eq_eq_eq_not, Bool.not_false]
      constructor
      · intro hsound
        exact (hsound.address rfl).2.2
      · intro hkeeps
        refine ⟨?_, fun hnot => by simp [hkeeps] at hnot⟩
        rintro _ ⟨⟩
        exact ⟨hkind, hpayload.symm, hkeeps⟩

/-- A raw pointer and another option may be null themselves, so an option of them takes two words.
It is known as one address. -/
theorem not_optionSound_nullable :
    ¬OptionSound "*mut c_void" (SlotType.ofText .rust (optionOf "*mut c_void")) ∧
      ¬OptionSound "Option<&u8>" (SlotType.ofText .rust (optionOf "Option<&u8>")) := by
  constructor
  · intro h
    have hslot := h.unmapped (by decide)
    exact absurd hslot (by decide +kernel)
  · intro h
    have hslot := h.unmapped (by decide)
    exact absurd hslot (by decide +kernel)

end Option

end ForeignModule.Abi
