import ForeignModule.Proofs.Abi.LastSegment
import ForeignModule.Proofs.Abi.RustOption

/-!
# Paths in Rust signatures

A type should be passed alike whether its name is written with its path or alone. The tables look
for fixed starts, and then behind the last separator of all that is left, so they go wrong in two
ways:

* an `Option` behind a path is no `Option` to them (`Qualified.hidesOption`);
* the last separator cuts off what stands in front of the path, which may be half of another type
  (`Qualified.hidesFront`).

`tag_bare_iff` says that there is no third way.
-/

namespace ForeignModule.Abi.RustType

/-! ## Texts with a path -/

/-- The words that are no names of types. -/
def keywords : List String := ["const", "extern", "fn", "mut", "unsafe"]

/-- Does a path start here: with a word and a separator, with a separator alone, or with a type in
angle brackets? -/
def startsPath (text : List Char) : Bool :=
  text.head? == some '<' || "::".toList.isPrefixOf (text.dropWhile isNameChar)

/-- The text of a type in which somewhere a name stands behind a path. -/
structure Qualified where
  before : List Char
  path : List Char
  name : List Char
  after : List Char
  -- Behind a word, the name alone would need a blank that a path with a leading separator does not.
  fenced : Fenced before
  starts : startsPath path = true
  ends : "::".toList <:+ path
  nonempty : name ≠ []
  isNameChar : ∀ c ∈ name, isNameChar c = true
  notKeyword : String.ofList name ∉ keywords
  stops : after.head?.any RustType.isNameChar = false

namespace Qualified

/-- The type as it stands. -/
def text (q : Qualified) : String := .ofList (q.before ++ (q.path ++ q.name) ++ q.after)

/-- The type without the path. -/
def bare (q : Qualified) : String := .ofList (q.before ++ q.name ++ q.after)

end Qualified

/-! ## What stands around the name inside all options -/

/-- What is around a name, with no blanks at the ends. -/
structure Context where
  before : List Char
  after : List Char
  /-- Is all of it the payload of an option? -/
  inOption : Bool

/-- What is around a name inside the outermost option, if there is one around all. -/
def layer? (before after : List Char) : Option (List Char × List Char) :=
  (Text.stripStart? "Option<".toList (Text.trimStart before)).bind fun front =>
    (Text.stripEnd? ['>'] (Text.trimEnd after)).map fun rest => (front, rest)

theorem layer?_eq_some_iff {before after front rest : List Char} :
    layer? before after = some (front, rest) ↔
      Text.trimStart before = "Option<".toList ++ front ∧ Text.trimEnd after = rest ++ ['>'] := by
  simp only [layer?, Option.bind_eq_some_iff, Option.map_eq_some_iff, Text.stripStart?_eq_some_iff,
    Text.stripEnd?_eq_some_iff, Prod.mk.injEq]
  constructor
  · rintro ⟨_, hfront, _, hrest, rfl, rfl⟩
    exact ⟨hfront, hrest⟩
  · rintro ⟨hfront, hrest⟩
    exact ⟨front, hfront, rest, hrest, rfl, rfl⟩

theorem length_layer_lt {before after front rest : List Char}
    (h : layer? before after = some (front, rest)) : front.length < before.length := by
  have hstart : (Text.trimStart before).length ≤ before.length :=
    (List.dropWhile_sublist Text.isBlank).length_le
  rw [(layer?_eq_some_iff.1 h).1] at hstart
  simp at hstart
  omega

/-- What is around a name inside all options that are around all. -/
def Context.inside (before after : List Char) (inOption : Bool) : Context :=
  match _h : layer? before after with
  | some (front, rest) => inside front rest true
  | none => ⟨Text.trimStart before, Text.trimEnd after, inOption⟩
termination_by before.length
decreasing_by exact length_layer_lt _h

theorem Context.inside_of_layer {before after front rest : List Char}
    (h : layer? before after = some (front, rest)) (inOption : Bool) :
    Context.inside before after inOption = .inside front rest true := by
  rw [Context.inside.eq_def]
  split <;> simp_all

theorem Context.inside_of_none {before after : List Char} (h : layer? before after = none)
    (inOption : Bool) :
    Context.inside before after inOption =
      ⟨Text.trimStart before, Text.trimEnd after, inOption⟩ := by
  rw [Context.inside.eq_def]
  split <;> simp_all

/-- The names that are bound to something: all in the table, or in an option that of an address. -/
def boundNames (inOption : Bool) : List String :=
  if inOption then ["CStr"] else table.map Prod.fst

/-- Where the tables look for a last segment, and for which names, if no path is in the way. -/
def Context.sought (c : Context) : List Char × List String :=
  match pointee? c.before with
  | some front => (front, ["c_char"])
  | none =>
    match referent? c.before with
    | some front => (front, ["CStr"])
    | none => (c.before, boundNames c.inOption)

namespace Qualified

variable (q : Qualified)

/-- What is around the name and its path. -/
def context : Context := .inside q.before q.after false

/-- The name is that of an option, of an address, and the path hides it. -/
def hidesOption : Bool :=
  q.context.before.isEmpty && (payload? (q.name ++ q.context.after)).isSome &&
    isAddressForm (innermost (q.name ++ q.context.after))

/-- The name alone is one that is looked for, and the path hides that something stands in front. -/
def hidesFront : Bool :=
  !isFunction q.context.before && q.context.after.isEmpty &&
    decide (String.ofList q.name ∈ q.context.sought.2) && !(lastSegment q.context.sought.1).isEmpty

end Qualified

/-! ## Starts of types -/

section Starts

variable {front text : List Char}

/-- The starts by which the tables know what a type is, but for an option. -/
def starts : List String := ["unsafe ", "extern \"C\" ", "fn(", "*const ", "*mut ", "&"]

/-- What is left of a start behind a place where a name may stand. -/
def startEnds : List String := starts ++ ["\"C\" ", "const ", "mut "]

/-- The text does not begin with what starts a type, or with the rest of that. -/
def NoStart (text : List Char) : Prop := ∀ stop ∈ startEnds, ¬stop.toList <+: text

theorem drop_mem_startEnds : ∀ start ∈ starts, ∀ k < start.toList.length,
    ((start.toList.take k).getLast?.all fun c => !isNameChar c && c != '"') = true →
      String.ofList (start.toList.drop k) ∈ startEnds := by
  decide +kernel

/-- A start is not cut in two by the place where a name stands. -/
theorem not_cut (hfront : Fenced front) (htext : NoStart text) {start : String}
    (hstart : start ∈ starts) :
    ∀ k < start.toList.length, front = start.toList.take k → ¬start.toList.drop k <+: text := by
  intro k hk hcut hprefix
  have hmem := drop_mem_startEnds start hstart k hk (hcut ▸ fenced_iff.1 hfront)
  exact htext _ hmem (by simpa using hprefix)

theorem stripStart?_fenced (hfront : Fenced front) (htext : NoStart text) {start : String}
    (hstart : start ∈ starts) :
    Text.stripStart? start.toList (front ++ text) =
      (Text.stripStart? start.toList front).map (· ++ text) :=
  Text.stripStart?_append_right (not_cut hfront htext hstart)

theorem dropStart_suffix (start : String) (text : List Char) : dropStart start text <:+ text := by
  rcases eq_dropStart start text with hsame | hcut
  · exact ⟨[], hsame.symm⟩
  · exact ⟨start.toList, hcut.symm⟩

theorem dropStart_fenced (hfront : Fenced front) (htext : NoStart text) {start : String}
    (hstart : start ∈ starts) :
    dropStart start (front ++ text) = dropStart start front ++ text := by
  rw [dropStart, dropStart, stripStart?_fenced hfront htext hstart]
  cases Text.stripStart? start.toList front <;> rfl

theorem isFunction_fenced (hfront : Fenced front) (htext : NoStart text) :
    isFunction (front ++ text) = isFunction front := by
  have hmarked : Fenced (dropStart "unsafe " front) := hfront.of_suffix (dropStart_suffix _ _)
  have hextern : Fenced (dropStart "extern \"C\" " (dropStart "unsafe " front)) :=
    hmarked.of_suffix (dropStart_suffix _ _)
  rw [isFunction, isFunction, dropStart_fenced hfront htext (by decide),
    dropStart_fenced hmarked htext (by decide), Bool.eq_iff_iff, List.isPrefixOf_iff_prefix,
    List.isPrefixOf_iff_prefix]
  exact Text.prefix_append_iff (not_cut hextern htext (by decide : "fn(" ∈ starts))

theorem pointee?_fenced (hfront : Fenced front) (htext : NoStart text) :
    pointee? (front ++ text) = (pointee? front).map (· ++ text) := by
  rw [pointee?, pointee?, stripStart?_fenced hfront htext (by decide),
    stripStart?_fenced hfront htext (by decide)]
  cases Text.stripStart? "*const ".toList front <;> rfl

/-- A text goes on with what starts a type only if it begins with the same word. -/
theorem takeWhile_word {stop : List Char} (h : stop <+: text)
    (hne : stop.dropWhile isNameChar ≠ []) :
    text.takeWhile isNameChar = stop.takeWhile isNameChar ∧
      (text.dropWhile isNameChar).head? = (stop.dropWhile isNameChar).head? := by
  obtain ⟨rest, rfl⟩ := h
  have hall : (stop.takeWhile isNameChar).length ≠ stop.length := by
    intro hlength
    have hsplit : (stop.takeWhile isNameChar ++ stop.dropWhile isNameChar).length = stop.length := by
      rw [List.takeWhile_append_dropWhile]
    rw [List.length_append, hlength] at hsplit
    exact hne (List.length_eq_zero_iff.1 (by omega))
  rw [List.takeWhile_append, if_neg hall, List.dropWhile_append, if_neg (by simpa using hne)]
  refine ⟨rfl, ?_⟩
  rw [List.head?_append, Option.or_of_isSome (by simpa using hne)]

theorem startEnds_words : ∀ stop ∈ startEnds, stop.toList.dropWhile isNameChar ≠ [] ∧
    (stop.toList.takeWhile isNameChar = [] ∨
      String.ofList (stop.toList.takeWhile isNameChar) ∈ keywords) ∧
    (stop.toList.dropWhile isNameChar).head? ≠ some ':' ∧
    (stop.toList.dropWhile isNameChar).head? ≠ some '<' := by
  decide +kernel

end Starts

/-! ## How a slot is bound -/

section Bound

variable {tag? : Option Tag} {inOption : Bool}

/-- The tag with which a slot is bound whose type, or the payload of it, has a tag or none. -/
def boundTag (inOption : Bool) (tag? : Option Tag) : Tag :=
  (if inOption then tag?.filter Tag.isAddress else tag?).getD .void

theorem tag_ofText (text : String) :
    (SlotType.ofText .rust text).tag = boundTag false (tagOf? (Text.trim text.toList)) := by
  unfold SlotType.ofText RustType.tag?
  dsimp only
  cases tagOf? (Text.trim text.toList) <;> rfl

theorem boundTag_filter (inOption : Bool) (tag? : Option Tag) :
    boundTag inOption (tag?.filter Tag.isAddress) = boundTag true tag? := by
  cases inOption with
  | false => rfl
  | true => cases tag? with
    | none => rfl
    | some tag => cases h : tag.isAddress <;> simp [boundTag, Option.filter, h]

theorem boundTag_address (tag : Tag) (h : tag.isAddress = true) (inOption : Bool) :
    boundTag inOption (some tag) = tag := by
  cases inOption <;> simp [boundTag, Option.filter, h]

theorem boundTag_true_eq_void_iff (tag? : Option Tag) :
    boundTag true tag? = .void ↔ tag?.any Tag.isAddress = false := by
  cases tag? with
  | none => simp [boundTag]
  | some tag => cases tag <;> simp [boundTag, Option.filter, Tag.isAddress]

theorem boundTag_lookup_eq_void_iff (inOption : Bool) (name : List Char) :
    boundTag inOption (table.lookup (.ofList name)) = .void ↔
      String.ofList name ∉ boundNames inOption := by
  cases inOption with
  | true =>
    rw [boundTag_true_eq_void_iff, any_isAddress_lookup, boundNames, if_pos rfl, List.mem_singleton,
      ← String.toList_inj, beq_eq_false_iff_ne]
    simp
  | false =>
    rw [boundNames, if_neg (by decide)]
    cases hfound : table.lookup (.ofList name) with
    | none =>
      have hkey : String.ofList name ∉ table.map Prod.fst := by
        rintro hmem
        obtain ⟨entry, hentry, hname⟩ := List.mem_map.1 hmem
        have hne := List.lookup_eq_none_iff.1 hfound entry hentry
        simp [hname] at hne
      simp [boundTag, hkey]
    | some tag =>
      obtain ⟨_, _, htable, _⟩ := List.lookup_eq_some_iff.1 hfound
      have hmem : (String.ofList name, tag) ∈ table := by simp [htable]
      have hvoid : ∀ entry ∈ table, entry.2 ≠ .void := by decide
      have hkey : String.ofList name ∈ table.map Prod.fst := List.mem_map.2 ⟨_, hmem, rfl⟩
      simp only [hkey, not_true_eq_false, iff_false]
      exact hvoid _ hmem

end Bound

/-! ## The same inside all options -/

section Inside

variable {middle : List Char}

/-- A type is bound like what is inside all options around it. -/
theorem boundTag_inside (before after : List Char) (hne : middle ≠ [])
    (hstart : ∀ c, middle.head? = some c → Text.isBlank c = false)
    (hstop : ∀ c, middle.getLast? = some c → Text.isBlank c = false) (inOption : Bool) :
    boundTag inOption (tagOf? (Text.trim (before ++ middle ++ after))) =
      boundTag (Context.inside before after inOption).inOption
        (tagOf? ((Context.inside before after inOption).before ++ middle ++
          (Context.inside before after inOption).after)) := by
  induction before, after, inOption using Context.inside.induct with
  | case1 before after inOption front rest h ih =>
    obtain ⟨hfront, hrest⟩ := layer?_eq_some_iff.1 h
    have hpayload :
        payload? (Text.trim (before ++ middle ++ after)) = some (front ++ middle ++ rest) := by
      rw [Text.trim_append before after hne hstart hstop, hfront, hrest, payload?]
      simp only [List.append_assoc, Text.stripStart?_append, Option.bind_some]
      simpa using Text.stripEnd?_append (front ++ middle ++ rest) ['>']
    rw [tagOf?_of_payload hpayload, boundTag_filter, Context.inside_of_layer h, ih]
  | case2 before after inOption h =>
    rw [Context.inside_of_none h, Text.trim_append before after hne hstart hstop]

theorem Context.inside_before (before after : List Char) (inOption : Bool) :
    (Context.inside before after inOption).before <:+ before := by
  induction before, after, inOption using Context.inside.induct with
  | case1 before after inOption front rest h ih =>
    rw [Context.inside_of_layer h]
    have hfront : front <:+ Text.trimStart before := ⟨_, (layer?_eq_some_iff.1 h).1.symm⟩
    exact ih.trans (hfront.trans (List.dropWhile_suffix Text.isBlank))
  | case2 before after inOption h =>
    rw [Context.inside_of_none h]
    exact List.dropWhile_suffix Text.isBlank

theorem Context.inside_after (before after : List Char) (inOption : Bool) :
    (Context.inside before after inOption).after <+: after := by
  have htrim : ∀ text : List Char, Text.trimEnd text <+: text := fun text => by
    obtain ⟨stop, hstop, -⟩ := Text.exists_trimEnd text
    exact ⟨stop, hstop.symm⟩
  induction before, after, inOption using Context.inside.induct with
  | case1 before after inOption front rest h ih =>
    rw [Context.inside_of_layer h]
    have hrest : rest <+: Text.trimEnd after := ⟨_, (layer?_eq_some_iff.1 h).2.symm⟩
    exact ih.trans (hrest.trans (htrim after))
  | case2 before after inOption h =>
    rw [Context.inside_of_none h]
    exact htrim after

/-- Inside all options no option is around all, and no blanks are at the end. -/
theorem Context.inside_plain (before after : List Char) (inOption : Bool) :
    (Text.stripStart? "Option<".toList (Context.inside before after inOption).before = none ∨
        Text.stripEnd? ['>'] (Context.inside before after inOption).after = none) ∧
      ∀ c, (Context.inside before after inOption).after.getLast? = some c → Text.isBlank c = false := by
  induction before, after, inOption using Context.inside.induct with
  | case1 before after inOption front rest h ih =>
    rw [Context.inside_of_layer h]
    exact ih
  | case2 before after inOption h =>
    rw [Context.inside_of_none h]
    refine ⟨?_, fun c hc => Text.getLast?_trimEnd hc⟩
    rw [layer?, Option.bind_eq_none_iff] at h
    cases hstart : Text.stripStart? "Option<".toList (Text.trimStart before) with
    | none => exact .inl rfl
    | some front => exact .inr (by simpa using h front hstart)

end Inside

/-! ## A type that is no option -/

section Core

variable {front text name after : List Char}

theorem plainTag?_fenced (hfront : Fenced front) (htext : NoStart text)
    (hname : ∃ c ∈ text, isNameChar c = true) :
    plainTag? (front ++ text) =
      if isFunction front then some .function
      else
        match pointee? front with
        | some rest =>
          some (if lastSegment (rest ++ text) = "c_char".toList then .cstring else .pointer)
        | none =>
          match Text.stripStart? ['&'] front with
          | some rest =>
            let referent := (Text.afterLast? [' '] (rest ++ text)).getD (rest ++ text)
            some (if lastSegment referent = "CStr".toList then .cstring else .pointer)
          | none => table.lookup (.ofList (lastSegment (front ++ text))) := by
  have hreferent : referent? (front ++ text) = (Text.stripStart? ['&'] front).map fun rest =>
      (Text.afterLast? [' '] (rest ++ text)).getD (rest ++ text) := by
    have hstrip := stripStart?_fenced hfront htext (by decide : "&" ∈ starts)
    have hsign : "&".toList = ['&'] := rfl
    rw [hsign] at hstrip
    rw [referent?, hstrip, Option.map_map]
    rfl
  have hvoid : ¬(front ++ text = [] ∨ front ++ text = ['(', ')']) := by
    obtain ⟨c, hmem, hc⟩ := hname
    have hboth : c ∈ front ++ text := List.mem_append_right _ hmem
    rintro (hnil | hunit)
    · rw [hnil] at hboth
      cases hboth
    · rw [hunit] at hboth
      rcases List.mem_cons.1 hboth with rfl | hlast
      · exact absurd hc (by decide)
      · obtain rfl := List.mem_singleton.1 hlast
        exact absurd hc (by decide)
  rw [plainTag?, if_neg hvoid, isFunction_fenced hfront htext, pointee?_fenced hfront htext,
    hreferent]
  cases pointee? front with
  | some rest => rfl
  | none => cases Text.stripStart? ['&'] front <;> rfl

/-- A pointer is read by one name. -/
theorem boundTag_pointer_eq_iff (inOption : Bool) (word : String) (segment : List Char) :
    boundTag inOption (some (if segment = word.toList then .cstring else .pointer)) = .pointer ↔
      String.ofList segment ∉ [word] := by
  by_cases h : segment = word.toList
  · simp [h, boundTag_address .cstring rfl]
  · have hne : String.ofList segment ≠ word := by
      rintro rfl
      simp at h
    simp [h, hne, boundTag_address .pointer rfl]

theorem pointee?_suffix {rest : List Char} (h : pointee? front = some rest) : rest <:+ front := by
  rcases Option.or_eq_some_iff.1 h with hconst | ⟨-, hmut⟩
  · exact ⟨_, (Text.stripStart?_eq_some_iff.1 hconst).symm⟩
  · exact ⟨_, (Text.stripStart?_eq_some_iff.1 hmut).symm⟩

theorem words_boundNames (inOption : Bool) : Words (boundNames inOption) := by
  cases inOption <;> decide +kernel

/-- What is behind the last blank, if there is one. -/
def behindBlank (text : List Char) : List Char := (Text.afterLast? [' '] text).getD text

theorem behindBlank_append {tail : List Char} (h : Text.afterLast? [' '] tail = none)
    (front : List Char) : behindBlank (front ++ tail) = behindBlank front ++ tail := by
  have happend : Text.afterLast? [' '] (front ++ tail) =
      (Text.afterLast? [' '] front).map (· ++ tail) := by
    apply Text.afterLast?_append_of_none h
    intro k hk hpos
    simp at hk
    omega
  rw [behindBlank, happend, behindBlank]
  cases Text.afterLast? [' '] front <;> rfl

/-- In a reference, what comes before the last blank is no part of the name, path or not. -/
theorem boundTag_reference_iff {inOption : Bool} (hname : NameAt name after) (hfront : Fenced front)
    (path : List Char) :
    boundTag inOption (some (if lastSegment (behindBlank (front ++ (name ++ after))) = "CStr".toList
        then .cstring else .pointer)) =
        boundTag inOption (some (if lastSegment (behindBlank
          (front ++ (path ++ "::".toList ++ (name ++ after)))) = "CStr".toList
        then .cstring else .pointer)) ↔
      ¬(after = [] ∧ String.ofList name ∈ ["CStr"] ∧ lastSegment (behindBlank front) ≠ []) := by
  cases hblank : Text.afterLast? [' '] (name ++ after) with
  | some found =>
    -- A blank behind the name hides the name itself.
    have hafter : after ≠ [] := by
      rintro rfl
      have hmem : ' ' ∉ name := fun hmem => absurd (hname.isNameChar ' ' hmem) (by decide)
      rw [List.append_nil, Text.afterLast?_eq_none hmem] at hblank
      cases hblank
    have hsame : ∀ start, behindBlank (start ++ (name ++ after)) = found := fun start => by
      rw [behindBlank, Text.afterLast?_append_of_some hblank, Option.getD_some]
    rw [hsame, ← List.append_assoc front, hsame]
    simp [hafter]
  | none =>
    have hseparator : Text.afterLast? [' '] "::".toList = none := by decide
    have hfenced : Fenced (behindBlank front) := hfront.of_suffix (Text.getD_afterLast?_suffix _ _)
    have hread := readSegment_iff (boundTag_pointer_eq_iff inOption "CStr") (by decide +kernel)
      hname hfenced (behindBlank (front ++ path))
    rw [behindBlank_append hblank, ← List.append_assoc front, behindBlank_append hblank,
      ← List.append_assoc front, behindBlank_append hseparator]
    exact hread

/-- Where a type is no option, a path changes how it is bound exactly if it hides what is before. -/
theorem boundTag_plain_iff {c : Context} {path : List Char} (hfront : Fenced c.before)
    (hname : NameAt name c.after) (hbare : NoStart (name ++ c.after))
    (hpath : NoStart (path ++ "::".toList ++ (name ++ c.after))) :
    boundTag c.inOption (plainTag? (c.before ++ (name ++ c.after))) =
        boundTag c.inOption (plainTag? (c.before ++ (path ++ "::".toList ++ (name ++ c.after)))) ↔
      ¬(isFunction c.before = false ∧ c.after = [] ∧ String.ofList name ∈ c.sought.2 ∧
        lastSegment c.sought.1 ≠ []) := by
  have hmem : ∃ a ∈ name ++ c.after, isNameChar a = true := by
    obtain ⟨a, ha⟩ := List.exists_mem_of_ne_nil name hname.nonempty
    exact ⟨a, List.mem_append_left _ ha, hname.isNameChar a ha⟩
  have hmem' : ∃ a ∈ path ++ "::".toList ++ (name ++ c.after), isNameChar a = true := by
    obtain ⟨a, ha, h⟩ := hmem
    exact ⟨a, List.mem_append_right _ ha, h⟩
  rw [plainTag?_fenced hfront hbare hmem, plainTag?_fenced hfront hpath hmem', Context.sought]
  cases isFunction c.before with
  | true => simp
  | false =>
    simp only [Bool.false_eq_true, if_false, true_and]
    cases hpointee : pointee? c.before with
    | some rest =>
      have hrest : Fenced rest := hfront.of_suffix (pointee?_suffix hpointee)
      have hread := readSegment_iff (boundTag_pointer_eq_iff c.inOption "c_char")
        (by decide +kernel) hname hrest (rest ++ path)
      simpa only [List.append_assoc] using hread
    | none =>
      simp only [referent?]
      cases hreferent : Text.stripStart? ['&'] c.before with
      | some rest =>
        have hrest : Fenced rest :=
          hfront.of_suffix ⟨_, (Text.stripStart?_eq_some_iff.1 hreferent).symm⟩
        exact boundTag_reference_iff hname hrest path
      | none =>
        simp only [Option.map_none]
        have hread := readSegment_iff (boundTag_lookup_eq_void_iff c.inOption)
          (words_boundNames c.inOption) hname hfront (c.before ++ path)
        simpa only [List.append_assoc] using hread

end Core

/-! ## What a name and a path start -/

section Words

variable {path name after : List Char}

theorem takeWhile_name (hname : NameAt name after) :
    (name ++ after).takeWhile isNameChar = name := by
  rw [List.takeWhile_append_of_pos hname.isNameChar]
  cases after with
  | nil => simp
  | cons c rest => simp [hname.stops c rfl]

theorem noStart_name (hname : NameAt name after) (hkeyword : String.ofList name ∉ keywords) :
    NoStart (name ++ after) := by
  intro stop hstop hprefix
  obtain ⟨hne, hword, -⟩ := startEnds_words stop hstop
  have htake := (takeWhile_word hprefix hne).1
  rw [takeWhile_name hname] at htake
  rcases hword with hnil | hkey
  · exact hname.nonempty (htake.trans hnil)
  · rw [← htake] at hkey
    exact hkeyword hkey

/-- A path starts with a word and a colon, or with an angle bracket. -/
theorem head?_dropWhile_path (h : startsPath path = true) (rest : List Char) :
    ((path ++ rest).dropWhile isNameChar).head? = some ':' ∨
      (path ++ rest).takeWhile isNameChar = [] ∧
        ((path ++ rest).dropWhile isNameChar).head? = some '<' := by
  rcases Bool.or_eq_true_iff.1 h with hangle | hcolon
  · obtain ⟨more, rfl⟩ := List.head?_eq_some_iff.1 (by simpa using hangle)
    have hsign : isNameChar '<' = false := by decide
    exact .inr ⟨by simp [hsign], by simp [hsign]⟩
  · obtain ⟨more, hmore⟩ := List.isPrefixOf_iff_prefix.1 hcolon
    left
    rw [List.dropWhile_append, if_neg (by simp [← hmore]), ← hmore]
    rfl

theorem noStart_path (h : startsPath path = true) (rest : List Char) : NoStart (path ++ rest) := by
  intro stop hstop hprefix
  obtain ⟨hne, -, hcolon, hangle⟩ := startEnds_words stop hstop
  have hhead := (takeWhile_word hprefix hne).2
  rcases head?_dropWhile_path h rest with hpath | ⟨-, hpath⟩
  · exact hcolon (hhead.symm.trans hpath)
  · exact hangle (hhead.symm.trans hpath)

theorem isBlank_head?_path (h : startsPath path = true) (rest : List Char) :
    ∀ c, (path ++ rest).head? = some c → Text.isBlank c = false := by
  intro c hc
  cases hchar : isNameChar c with
  | true => exact not_isBlank_of_isNameChar hchar
  | false =>
    obtain ⟨more, hmore⟩ := List.head?_eq_some_iff.1 hc
    have hdrop : ((path ++ rest).dropWhile isNameChar).head? = some c := by simp [hmore, hchar]
    rcases head?_dropWhile_path h rest with hpath | ⟨-, hpath⟩
    · obtain rfl : c = ':' := Option.some.inj (hdrop.symm.trans hpath)
      decide
    · obtain rfl : c = '<' := Option.some.inj (hdrop.symm.trans hpath)
      decide

theorem not_option_prefix_path (h : startsPath path = true) (rest : List Char) :
    ¬"Option<".toList <+: path ++ rest := by
  intro hprefix
  obtain ⟨htake, hhead⟩ := takeWhile_word hprefix (by decide)
  rcases head?_dropWhile_path h rest with hpath | ⟨hnil, -⟩
  · rw [hpath] at hhead
    exact absurd hhead (by decide)
  · rw [hnil] at htake
    exact absurd htake (by decide)

theorem getLast?_of_payload {text inner : List Char} (h : payload? text = some inner) :
    text.getLast? = some '>' := by
  obtain ⟨rest, hrest, hinner⟩ := Option.bind_eq_some_iff.1 h
  rw [Text.stripStart?_eq_some_iff.1 hrest, Text.stripEnd?_eq_some_iff.1 hinner,
    ← List.append_assoc, List.getLast?_concat]

/-- Where no option is around all, a name with or without its path makes none. -/
theorem payload?_fenced {front text : List Char} (hfront : Fenced front)
    (hoption : front = [] → ¬"Option<".toList <+: text) :
    payload? (front ++ text) =
      (Text.stripStart? "Option<".toList front).bind fun rest =>
        Text.stripEnd? ['>'] (rest ++ text) := by
  have hcut : ∀ k < "Option<".toList.length, front = "Option<".toList.take k →
      ¬"Option<".toList.drop k <+: text := by
    intro k hk hfrontk hprefix
    -- Only letters come before the bracket, and no name may start behind a letter.
    have hletters : ∀ k < "Option<".toList.length,
        (("Option<".toList.take k).getLast?.all fun c => !isNameChar c && c != '"') = true →
          k = 0 := by
      decide
    obtain rfl := hletters k hk (hfrontk ▸ fenced_iff.1 hfront)
    exact hoption hfrontk hprefix
  rw [payload?, Text.stripStart?_append_right hcut]
  cases Text.stripStart? "Option<".toList front <;> rfl

theorem stripEnd?_name (hname : NameAt name after) (hafter : Text.stripEnd? ['>'] after = none)
    (front : List Char) : Text.stripEnd? ['>'] (front ++ (name ++ after)) = none := by
  apply Text.stripEnd?_eq_none_of_getLast?
  intro hlast
  cases hend : after.getLast? with
  | some c =>
    rw [← List.append_assoc, List.getLast?_append, hend, Option.some_or, Option.some.injEq] at hlast
    obtain ⟨init, hinit⟩ := List.getLast?_eq_some_iff.1 hend
    rw [hinit, hlast, Text.stripEnd?_append] at hafter
    cases hafter
  | none =>
    have hnil := List.getLast?_eq_none_iff.1 hend
    obtain ⟨init, c, rfl⟩ := (List.eq_nil_or_concat name).resolve_left hname.nonempty
    have hc : isNameChar c = true := hname.isNameChar c (by simp)
    have : c = '>' := by simpa [hnil] using hlast
    rw [this] at hc
    exact absurd hc (by decide)

end Words

/-! ## With and without the path -/

namespace Qualified

variable (q : Qualified)

theorem fenced_context : Fenced q.context.before :=
  q.fenced.of_suffix (Context.inside_before _ _ _)

theorem nameAt : NameAt q.name q.context.after where
  nonempty := q.nonempty
  isNameChar := q.isNameChar
  stops := by
    obtain ⟨rest, hrest⟩ := Context.inside_after q.before q.after false
    intro c hc
    rw [context] at hc
    have hstops := q.stops
    rwa [← hrest, List.head?_append, hc, Option.some_or, Option.any_some] at hstops
  trimmed := (Context.inside_plain _ _ _).2

/-- The tag of the type depends on what is inside all options. -/
theorem tag_bare : (SlotType.ofText .rust q.bare).tag =
    boundTag q.context.inOption (tagOf? (q.context.before ++ (q.name ++ q.context.after))) := by
  have hname : NameAt q.name [] := ⟨q.nonempty, q.isNameChar, by simp, by simp⟩
  have hstart := hname.isBlank_head?
  have hstop := hname.isBlank_getLast?
  rw [List.append_nil] at hstart hstop
  have hinside := boundTag_inside q.before q.after q.nonempty hstart hstop false
  rw [tag_ofText, bare, String.toList_ofList, hinside, List.append_assoc]
  rfl

theorem tag_text : (SlotType.ofText .rust q.text).tag =
    boundTag q.context.inOption
      (tagOf? (q.context.before ++ (q.path ++ (q.name ++ q.context.after)))) := by
  have hname : NameAt q.name [] := ⟨q.nonempty, q.isNameChar, by simp, by simp⟩
  have hstart : ∀ c, (q.path ++ q.name).head? = some c → Text.isBlank c = false :=
    isBlank_head?_path q.starts _
  have hstop : ∀ c, (q.path ++ q.name).getLast? = some c → Text.isBlank c = false := by
    intro c hc
    rw [List.getLast?_append, Option.or_of_isSome (by simpa using q.nonempty)] at hc
    exact hname.isBlank_getLast? c (by simpa using hc)
  have hinside := boundTag_inside q.before q.after
    (List.append_ne_nil_of_right_ne_nil q.path q.nonempty) hstart hstop false
  rw [tag_ofText, text, String.toList_ofList, hinside, List.append_assoc, List.append_assoc]
  rfl

/-- With its path, the name makes no option, and neither does what is around it. -/
theorem payload?_text :
    payload? (q.context.before ++ (q.path ++ (q.name ++ q.context.after))) = none := by
  rw [payload?_fenced q.fenced_context fun _ => not_option_prefix_path q.starts _]
  rcases (Context.inside_plain q.before q.after false).1 with hfront | hafter
  · rw [context, hfront, Option.bind_none]
  · rw [Option.bind_eq_none_iff]
    intro rest _
    rw [← List.append_assoc]
    exact stripEnd?_name q.nameAt hafter _

/-- Without its path, the name makes an option only if it is all that is left of the start. -/
theorem payload?_bare {inner : List Char}
    (h : payload? (q.context.before ++ (q.name ++ q.context.after)) = some inner) :
    q.context.before = [] := by
  by_contra hne
  rw [payload?_fenced q.fenced_context fun hnil => absurd hnil hne] at h
  rcases (Context.inside_plain q.before q.after false).1 with hfront | hafter
  · rw [context, hfront, Option.bind_none] at h
    cases h
  · obtain ⟨rest, -, hrest⟩ := Option.bind_eq_some_iff.1 h
    rw [stripEnd?_name q.nameAt hafter] at hrest
    cases hrest

theorem hidesFront_eq_true_iff : q.hidesFront = true ↔
    isFunction q.context.before = false ∧ q.context.after = [] ∧
      String.ofList q.name ∈ q.context.sought.2 ∧ lastSegment q.context.sought.1 ≠ [] := by
  simp [hidesFront, and_assoc]

/-- What ends in a bracket is no name in the table. -/
theorem lookup_of_option {path inner : List Char}
    (hplain : NoStart (path ++ "::".toList ++ (q.name ++ q.context.after)))
    (hoption : payload? (q.name ++ q.context.after) = some inner) (inOption : Bool) :
    boundTag inOption (plainTag? (path ++ "::".toList ++ (q.name ++ q.context.after))) = .void := by
  have hmem : ∃ c ∈ path ++ "::".toList ++ (q.name ++ q.context.after),
      RustType.isNameChar c = true := by
    obtain ⟨c, hc⟩ := List.exists_mem_of_ne_nil q.name q.nonempty
    exact ⟨c, by simp [hc], q.isNameChar c hc⟩
  have hempty : Fenced [] := by
    intro c hc
    cases hc
  have htag := plainTag?_fenced hempty hplain hmem
  have hfunction : isFunction [] = false := by decide
  have hpointee : pointee? [] = none := by decide
  have hreference : Text.stripStart? ['&'] [] = none := rfl
  simp only [List.nil_append, hfunction, hpointee, hreference, Bool.false_eq_true, if_false] at htag
  rw [htag, lastSegment_separator path q.nameAt.head?_ne_colon, boundTag_lookup_eq_void_iff]
  intro hword
  obtain ⟨front, hfront, -⟩ :=
    exists_front_of_lastSegment q.nameAt.isBlank_head? q.nameAt.isBlank_getLast? rfl
  have hwords : ∀ word ∈ boundNames inOption, word.toList ≠ [] := by
    cases inOption <;> decide +kernel
  have hlast := getLast?_of_payload hoption
  obtain ⟨init, c, hc⟩ := (List.eq_nil_or_concat _).resolve_left (by simpa using hwords _ hword)
  have hchar : RustType.isNameChar c = true :=
    words_boundNames inOption _ hword c (by simp [hc])
  obtain rfl : c = '>' := by
    rw [hfront, hc] at hlast
    simpa using hlast
  exact absurd hchar (by decide)

/-- A type is bound alike with a path and without it, unless the path hides an option or hides what
is in front of it. -/
theorem tag_bare_iff :
    (SlotType.ofText .rust q.bare).tag = (SlotType.ofText .rust q.text).tag ↔
      q.hidesOption = false ∧ q.hidesFront = false := by
  obtain ⟨path, hpath⟩ := q.ends
  have hplain : NoStart (path ++ "::".toList ++ (q.name ++ q.context.after)) := by
    rw [hpath]
    exact noStart_path q.starts _
  rw [tag_bare, tag_text, tagOf?_of_plain q.payload?_text, ← hpath]
  cases hpayload : payload? (q.context.before ++ (q.name ++ q.context.after)) with
  | none =>
    have hoption : q.hidesOption = false := by
      cases hbefore : q.context.before with
      | nil =>
        rw [hbefore, List.nil_append] at hpayload
        simp [hidesOption, hpayload]
      | cons c rest => simp [hidesOption, hbefore]
    have hiff := boundTag_plain_iff q.fenced_context q.nameAt
      (noStart_name q.nameAt q.notKeyword) hplain
    rw [tagOf?_of_plain hpayload, hiff, ← hidesFront_eq_true_iff]
    simp [hoption]
  | some inner =>
    have hbefore := q.payload?_bare hpayload
    have htag := tagOf?_of_payload hpayload
    rw [hbefore, List.nil_append] at hpayload htag
    have hafter : q.context.after ≠ [] := by
      intro hnil
      have hlast := getLast?_of_payload hpayload
      rw [hnil, List.append_nil] at hlast
      exact absurd (q.isNameChar _ (List.mem_of_getLast? hlast)) (by decide)
    have hfront : q.hidesFront = false := by simp [hidesFront, hafter]
    rw [hbefore, List.nil_append, List.nil_append, q.lookup_of_option hplain hpayload, htag,
      boundTag_filter, boundTag_true_eq_void_iff, any_isAddress_tagOf?,
      ← innermost_of_payload hpayload]
    simp [hidesOption, hbefore, hpayload, hfront]

/-- A function pointer in an `Option` with its path. -/
def pathOption : Qualified where
  before := []
  path := "std::option::".toList
  name := "Option".toList
  after := "<extern \"C\" fn(i32)>".toList
  fenced := by decide
  starts := by decide +kernel
  ends := by decide
  nonempty := by decide
  isNameChar := List.all_eq_true.1 (by decide +kernel)
  notKeyword := by decide
  stops := by decide

/-- A pointer to a text, where the text has its path. -/
def pathPointee : Qualified where
  before := "*const *const ".toList
  path := "std::ffi::".toList
  name := "c_char".toList
  after := []
  fenced := by decide
  starts := by decide +kernel
  ends := by decide
  nonempty := by decide
  isNameChar := List.all_eq_true.1 (by decide +kernel)
  notKeyword := by decide
  stops := by decide

/-- Both ways in which a path matters: it hides that `Option<extern "C" fn(i32)>` is an option, and
that `*const *const c_char` is a pointer to a pointer. -/
theorem tag_bare_ne :
    (SlotType.ofText .rust pathOption.bare).tag ≠ (SlotType.ofText .rust pathOption.text).tag ∧
      (SlotType.ofText .rust pathPointee.bare).tag ≠
        (SlotType.ofText .rust pathPointee.text).tag := by
  constructor
  · decide +kernel
  · decide +kernel

end Qualified

end ForeignModule.Abi.RustType
