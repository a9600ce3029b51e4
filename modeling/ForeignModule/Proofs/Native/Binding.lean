import ForeignModule.Native.Binding
import Mathlib.Data.List.Basic
import Mathlib.Data.List.Induction

/-!
# Which declaration stands for a name

`Signature.exports` says it with lists alone: of each name the last declaration, in the order in
which the names first appear. What is described are these declarations (`describe_eq`); the order
and the shapes are kept apart while the declarations are read (`Described.Lists`), and put together
at the end (`Described.shapesOf_eq`).
-/

namespace ForeignModule

open ForeignModule.Abi

namespace Signature

/-- The last declaration of each name, in the order in which the names first appear. -/
def exports (signatures : List Signature) : List Signature :=
  (signatures.map Signature.name).eraseDups.filterMap fun name =>
    signatures.reverse.find? (·.name == name)

variable {signatures before after : List Signature} {s : Signature}

/-- A name that an entry carries is found, where the entries are found by their names. -/
theorem find?_filterMap {found : String → Option Signature} {names : List String} {name : String}
    (hfound : ∀ n t, found n = some t → t.name = n) (hmem : name ∈ names) :
    (names.filterMap found).find? (·.name == name) = found name := by
  induction names with
  | nil => simp at hmem
  | cons n rest ih =>
    have htail : name ≠ n → name ∈ rest := fun hne => by simpa [hne] using hmem
    cases hn : found n with
    | none =>
      rw [List.filterMap_cons_none hn]
      by_cases hname : name = n
      · subst hname
        -- No entry further on carries the name either.
        rw [hn, List.find?_eq_none]
        intro t ht
        obtain ⟨m, _, hm⟩ := List.mem_filterMap.1 ht
        have htm : t.name = m := hfound m t hm
        intro heq
        have : m = name := htm.symm.trans (by simpa using heq)
        rw [this, hn] at hm
        cases hm
      · exact ih (htail hname)
    | some t =>
      rw [List.filterMap_cons_some hn]
      have ht : t.name = n := hfound n t hn
      by_cases hname : name = n
      · subst hname
        simp [ht, hn]
      · have hother : (t.name == name) = false := by simpa [ht] using Ne.symm hname
        rw [List.find?_cons_of_neg (by simp [hother])]
        exact ih (htail hname)

/-- What is found under a name carries it. -/
theorem name_of_find? {name : String} (h : signatures.reverse.find? (·.name == name) = some s) :
    s.name = name := by
  simpa using List.find?_some h

/-- The last declaration of a name is found from the end. -/
theorem find?_reverse_of_last (hlast : ∀ t ∈ after, t.name ≠ s.name) :
    (before ++ s :: after).reverse.find? (·.name == s.name) = some s := by
  have hnone : after.reverse.find? (·.name == s.name) = none := by
    simpa [List.find?_eq_none] using hlast
  simp [List.find?_append, hnone]

/-- The last declaration of its name is exported. -/
theorem find?_exports (hlast : ∀ t ∈ after, t.name ≠ s.name) :
    (exports (before ++ s :: after)).find? (·.name == s.name) = some s := by
  have hmem : s.name ∈ ((before ++ s :: after).map Signature.name).eraseDups := by
    simp [List.mem_eraseDups]
  unfold exports
  rw [find?_filterMap (fun n t ht => name_of_find? ht) hmem]
  exact find?_reverse_of_last hlast

/-- Each exported declaration is the one that is found under its name from the end. -/
theorem find?_of_mem_exports (h : s ∈ exports signatures) :
    signatures.reverse.find? (·.name == s.name) = some s := by
  obtain ⟨name, _, hfound⟩ := List.mem_filterMap.1 h
  rw [name_of_find? hfound]
  exact hfound

/-- The exported declarations have each name once, where it first appears. -/
theorem map_name_exports (signatures : List Signature) :
    (exports signatures).map Signature.name = (signatures.map Signature.name).eraseDups := by
  rw [exports, List.map_filterMap]
  have hall : ∀ name ∈ (signatures.map Signature.name).eraseDups,
      (signatures.reverse.find? (·.name == name)).map Signature.name = some name := by
    intro name hname
    obtain ⟨s, hs, rfl⟩ := List.mem_map.1 (List.mem_eraseDups.1 hname)
    have hsome : (signatures.reverse.find? (·.name == s.name)).isSome := by
      rw [List.find?_isSome]
      exact ⟨s, List.mem_reverse.2 hs, by simp⟩
    obtain ⟨t, ht⟩ := Option.isSome_iff_exists.1 hsome
    rw [ht, Option.map_some, name_of_find? ht]
  rw [List.filterMap_congr hall, List.filterMap_some]

theorem lookup_map_name (f : Signature → Descriptor) (name : String) :
    (signatures.map fun t => (t.name, f t)).lookup name
      = (signatures.find? (·.name == name)).map f := by
  induction signatures with
  | nil => rfl
  | cons t rest ih =>
    rw [List.map_cons, List.lookup_cons, List.find?_cons, ih]
    by_cases h : t.name = name
    · simp [h]
    · have hne : (t.name == name) = false ∧ (name == t.name) = false := by
        simp [h, Ne.symm h]
      simp [hne.1, hne.2]

end Signature

/-! ## What is described -/

namespace Described

variable {b : Backend} {d : Described} {signatures : List Signature}

/-- The names are those of the signatures, and each has the shape of its last declaration. -/
structure Lists (b : Backend) (d : Described) (signatures : List Signature) : Prop where
  order : d.order = (signatures.map Signature.name).eraseDups
  shapes : ∀ name, d.shapes[name]?
    = (signatures.reverse.find? (·.name == name)).map (Descriptor.ofSignature b)

theorem Lists.mem_iff (h : Lists b d signatures) (name : String) :
    name ∈ d.shapes ↔ name ∈ signatures.map Signature.name := by
  rw [Std.ExtTreeMap.mem_iff_isSome_getElem?, h.shapes, Option.isSome_map, List.find?_isSome]
  simp only [List.mem_reverse, beq_iff_eq, List.mem_map]

theorem Lists.add (h : Lists b d signatures) (s : Signature) :
    Lists b (d.add b s) (signatures ++ [s]) where
  order := by
    have hmem := h.mem_iff s.name
    rw [List.map_append, List.eraseDups_append, ← h.order, Described.add]
    -- A name keeps its place where it is there already, and comes last where it is not.
    by_cases hs : s.name ∈ d.shapes
    · have hnone : [s.name].removeAll (signatures.map Signature.name) = [] := by
        simpa [List.removeAll] using hmem.1 hs
      simp [hs, hnone]
    · have hnew : [s.name].removeAll (signatures.map Signature.name) = [s.name] := by
        simpa [List.removeAll] using fun hin => hs (hmem.2 hin)
      simp [hs, hnew, List.eraseDups_cons]
  shapes name := by
    rw [Described.add, Std.ExtTreeMap.getElem?_insert, h.shapes, List.reverse_append]
    by_cases hs : s.name = name
    · simp [hs]
    · simp [hs]

theorem Lists.foldl (h : Lists b d signatures) (more : List Signature) :
    Lists b (more.foldl (Described.add b) d) (signatures ++ more) := by
  induction more generalizing d signatures with
  | nil => simpa using h
  | cons s rest ih =>
    rw [List.foldl_cons, List.append_cons]
    exact ih (h.add s)

theorem lists_empty : Lists b {} [] where
  order := rfl
  shapes name := by simp

/-- Names that differ find their shapes, though each shape is taken out. -/
theorem shapesOf_eq {names : List String} (hnodup : names.Nodup)
    (shapes : Std.ExtTreeMap String Descriptor) :
    shapesOf shapes names = names.filterMap fun name => shapes[name]?.map (name, ·) := by
  induction names generalizing shapes with
  | nil => rfl
  | cons name rest ih =>
    obtain ⟨hname, hrest⟩ := List.nodup_cons.1 hnodup
    rw [shapesOf, List.filterMap_cons]
    cases hshape : shapes[name]? with
    | none => exact ih hrest shapes
    | some shape =>
      simp only [Option.map_some]
      rw [ih hrest]
      refine congrArg _ (List.filterMap_congr fun other hother => ?_)
      have hne : name ≠ other := fun h => hname (h ▸ hother)
      rw [Std.ExtTreeMap.getElem?_erase, if_neg (by simpa using hne)]

end Described

namespace Signature

variable {b : Backend}

/-- A list in which repetitions are left out has none. -/
theorem nodup_eraseDups (names : List String) : names.eraseDups.Nodup := by
  -- From the end, where `eraseDups` meets the repetitions.
  induction names using List.reverseRec with
  | nil => exact List.nodup_nil
  | append_singleton rest name ih =>
    rw [List.eraseDups_append]
    by_cases hname : name ∈ rest
    · have hnone : [name].removeAll rest = [] := by
        simpa [List.removeAll] using hname
      simpa [hnone] using ih
    · have hnew : [name].removeAll rest = [name] := by
        simpa [List.removeAll] using hname
      have hdistinct : ∀ a ∈ rest, ¬a = name := fun a ha => ne_of_mem_of_not_mem ha hname
      simpa [hnew, List.eraseDups_cons, List.nodup_append, ih] using hdistinct

/-- What is described are the exported declarations. -/
theorem describe_eq (signatures : List Signature) :
    describe b signatures
      = (exports signatures).map fun s => (s.name, Descriptor.ofSignature b s) := by
  have hlists := Described.lists_empty.foldl (b := b) signatures
  rw [List.nil_append] at hlists
  rw [describe, hlists.order, Described.shapesOf_eq (nodup_eraseDups _), exports,
    List.map_filterMap]
  refine List.filterMap_congr fun name _ => ?_
  rw [hlists.shapes, Option.map_map]
  cases hfound : signatures.reverse.find? (·.name == name) with
  | none => rfl
  | some s =>
    rw [← name_of_find? hfound]
    rfl

/-- The last declaration of its name is the one that is described. -/
theorem lookup_describe (b : Backend) (before : List Signature) (s : Signature)
    (after : List Signature) (hlast : ∀ t ∈ after, t.name ≠ s.name) :
    (describe b (before ++ s :: after)).lookup s.name
      = some (Abi.Descriptor.ofSignature b s) := by
  rw [describe_eq, lookup_map_name, find?_exports hlast]
  rfl

end Signature

end ForeignModule
