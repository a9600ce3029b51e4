import ForeignModule.Proofs.Native.Binding
import Mathlib.Data.List.Forall2

/-!
# What becomes of a binding

A binding fails for one of three reasons, and these have an order: first the types are checked, then
the library is loaded, and then the symbols are looked up. `Outcome` says so of the declarations
that are exported, `Signature.exports`, without the containers that collect them and without the
second search that finds the names of parameters.

Main statements:
* `refusal_eq_some_iff`, `refusal_eq_none_iff`: which type is refused first, and when none is;
* `resolve_eq_error_iff`, `resolve_eq_ok_iff`: which symbol is missed first, and when none is;
* `exposes_of_bound`: what a binding shows of the functions that are bound;
* `bind_outcome`: the binding as a whole.
-/

namespace ForeignModule.Native

open ForeignModule.Abi

/-! ## Types that are in no table -/

section Types

variable {b : Backend} {s : Signature} {signatures : List Signature} {place : Place}
  {text name : String} {e : BindError} {strict : Bool}

/-- All types of a declaration are in a table. -/
structure Known (b : Backend) (s : Signature) : Prop where
  result : (SlotType.ofText b s.result).isUnmapped = false
  parameters : ∀ p ∈ s.parameters, (SlotType.ofText b p.type).isUnmapped = false

/-- The first type of a declaration that is in no table, with its place. The result comes before the
parameters, and these go from left to right. -/
inductive Unmapped (b : Backend) (s : Signature) : Place → String → Prop where
  | result {text : String} (unmapped : SlotType.ofText b s.result = .unmapped text) :
      Unmapped b s .result text
  | parameter {text : String} {p : Parameter} {before after : List Parameter}
      (result : (SlotType.ofText b s.result).isUnmapped = false)
      (split : s.parameters = before ++ p :: after)
      (known : ∀ q ∈ before, (SlotType.ofText b q.type).isUnmapped = false)
      (unmapped : SlotType.ofText b p.type = .unmapped text) :
      Unmapped b s (.parameter p.name) text

/-- The refusal of a parameter that is named as the declaration itself names it. -/
def refusal? (b : Backend) (name : String) (p : Parameter) : Option BindError :=
  match SlotType.ofText b p.type with
  | .unmapped text => some (.unmappedType name (.parameter p.name) text)
  | .known _ => none

theorem refusal?_eq_none_iff {p : Parameter} :
    refusal? b name p = none ↔ (SlotType.ofText b p.type).isUnmapped = false := by
  unfold refusal?
  cases SlotType.ofText b p.type <;> simp [SlotType.isUnmapped]

theorem refusal?_eq_some_iff {p : Parameter} : refusal? b name p = some e
    ↔ ∃ text, SlotType.ofText b p.type = .unmapped text
      ∧ e = .unmappedType name (.parameter p.name) text := by
  unfold refusal?
  cases SlotType.ofText b p.type <;> simp [eq_comm]

/-- The second search finds each parameter under its index: no parameter goes without a name. -/
theorem findSome?_unmappedParameter? {before rest : List Parameter}
    (hsplit : s.parameters = before ++ rest) :
    ((rest.map fun p => SlotType.ofText b p.type).zipIdx before.length).findSome?
      (unmappedParameter? name (some s)) = rest.findSome? (refusal? b name) := by
  -- The index moves on with the parameters that have been checked.
  induction rest generalizing before with
  | nil => rfl
  | cons p rest ih =>
    have hhead : unmappedParameter? name (some s) (SlotType.ofText b p.type, before.length)
        = refusal? b name p := by
      have hname : s.parameters[before.length]? = some p := by simp [hsplit]
      unfold unmappedParameter? refusal?
      cases SlotType.ofText b p.type <;> simp [hname]
    have hmore : s.parameters = (before ++ [p]) ++ rest := by simpa using hsplit
    have htail := ih hmore
    rw [List.length_append] at htail
    rw [List.map_cons, List.zipIdx_cons, List.findSome?_cons, List.findSome?_cons, hhead]
    cases refusal? b name p with
    | some e => rfl
    | none => exact htail

/-- The check of a declaration, said with the declaration alone. -/
theorem unmapped?_eq (b : Backend) (s : Signature) :
    unmapped? s.name (Descriptor.ofSignature b s) (some s)
      = match SlotType.ofText b s.result with
        | .unmapped text => some (.unmappedType s.name .result text)
        | .known _ => s.parameters.findSome? (refusal? b s.name) := by
  have hparameters : (s.parameters.map fun p => SlotType.ofText b p.type).zipIdx.findSome?
      (unmappedParameter? s.name (some s)) = s.parameters.findSome? (refusal? b s.name) :=
    findSome?_unmappedParameter? (show s.parameters = [] ++ s.parameters from rfl)
  unfold unmapped?
  simp only [Descriptor.ofSignature]
  cases SlotType.ofText b s.result with
  | unmapped text => rfl
  | known tag => exact hparameters

theorem unmapped?_eq_none_iff :
    unmapped? s.name (Descriptor.ofSignature b s) (some s) = none ↔ Known b s := by
  rw [unmapped?_eq]
  constructor
  · intro h
    cases hresult : SlotType.ofText b s.result with
    | unmapped text => simp [hresult] at h
    | known tag =>
      simp only [hresult, List.findSome?_eq_none_iff, refusal?_eq_none_iff] at h
      exact ⟨by rw [hresult]; rfl, h⟩
  · intro ⟨hresult, hparameters⟩
    cases h : SlotType.ofText b s.result with
    | unmapped text =>
      rw [h] at hresult
      cases hresult
    | known tag => simpa [List.findSome?_eq_none_iff, refusal?_eq_none_iff] using hparameters

theorem unmapped?_eq_some_iff : unmapped? s.name (Descriptor.ofSignature b s) (some s) = some e
    ↔ ∃ place text, Unmapped b s place text ∧ e = .unmappedType s.name place text := by
  rw [unmapped?_eq]
  constructor
  · intro h
    cases hresult : SlotType.ofText b s.result with
    | unmapped text =>
      simp only [hresult, Option.some_inj] at h
      exact ⟨.result, text, .result hresult, h.symm⟩
    | known tag =>
      simp only [hresult, List.findSome?_eq_some_iff] at h
      obtain ⟨before, p, after, hsplit, hp, hbefore⟩ := h
      obtain ⟨text, hunmapped, rfl⟩ := refusal?_eq_some_iff.1 hp
      have hknown : ∀ q ∈ before, (SlotType.ofText b q.type).isUnmapped = false := fun q hq =>
        refusal?_eq_none_iff.1 (hbefore q hq)
      exact ⟨.parameter p.name, text, .parameter (by rw [hresult]; rfl) hsplit hknown hunmapped,
        rfl⟩
  · rintro ⟨place, text, hfirst, rfl⟩
    cases hfirst with
    | result unmapped => simp [unmapped]
    | parameter result split known unmapped =>
      cases hresult : SlotType.ofText b s.result with
      | unmapped text =>
        rw [hresult] at result
        cases result
      | known tag =>
        simp only [List.findSome?_eq_some_iff]
        exact ⟨_, _, _, split, refusal?_eq_some_iff.2 ⟨_, unmapped, rfl⟩, fun q hq =>
          refusal?_eq_none_iff.2 (known q hq)⟩

/-- The refusal with which a binding fails before its library is loaded. -/
def refusal (b : Backend) (strict : Bool) (signatures : List Signature) : Option BindError :=
  if strict then firstUnmapped? signatures (Signature.describe b signatures) else none

/-- The declaration that is found for a described function is the one that is described. -/
theorem firstUnmapped?_map {exported : List Signature} (hfound : ∀ s ∈ exported,
      signatures.reverse.find? (·.name == s.name) = some s) :
    firstUnmapped? signatures (exported.map fun s => (s.name, Descriptor.ofSignature b s))
      = exported.findSome? fun s => unmapped? s.name (Descriptor.ofSignature b s) (some s) := by
  induction exported with
  | nil => rfl
  | cons s rest ih =>
    obtain ⟨hs, hrest⟩ := List.forall_mem_cons.1 hfound
    have htail := ih hrest
    unfold firstUnmapped? at htail ⊢
    rw [List.map_cons, List.findSome?_cons, List.findSome?_cons, htail]
    simp only [hs]

theorem refusal_eq_none_iff : refusal b strict signatures = none
    ↔ (strict = true → ∀ s ∈ Signature.exports signatures, Known b s) := by
  unfold refusal
  rw [Signature.describe_eq, firstUnmapped?_map fun s hs => Signature.find?_of_mem_exports hs]
  cases strict with
  | false => simp
  | true => simp [List.findSome?_eq_none_iff, unmapped?_eq_none_iff]

theorem refusal_eq_some_iff : refusal b strict signatures = some e
    ↔ strict = true ∧ ∃ before s after place text,
      Signature.exports signatures = before ++ s :: after ∧ (∀ t ∈ before, Known b t)
        ∧ Unmapped b s place text ∧ e = .unmappedType s.name place text := by
  unfold refusal
  rw [Signature.describe_eq, firstUnmapped?_map fun s hs => Signature.find?_of_mem_exports hs]
  cases strict with
  | false => simp
  | true =>
    simp only [if_true, List.findSome?_eq_some_iff, unmapped?_eq_none_iff, unmapped?_eq_some_iff,
      true_and]
    constructor
    · rintro ⟨before, s, after, hsplit, ⟨place, text, hfirst, he⟩, hknown⟩
      exact ⟨before, s, after, place, text, hsplit, hknown, hfirst, he⟩
    · rintro ⟨before, s, after, place, text, hsplit, hknown, hfirst, he⟩
      exact ⟨before, s, after, hsplit, ⟨place, text, hfirst, he⟩, hknown⟩

end Types

/-! ## Symbols -/

section Symbols

variable {b : Backend} {l : Library} {exported : List Signature} {e : BindError}
  {functions : List BoundFunction}

/-- The function is the symbol of a declaration, bound under its name and with its shape. -/
structure BoundTo (b : Backend) (l : Library) (s : Signature) (f : BoundFunction) : Prop where
  name : f.name = s.name
  descriptor : f.descriptor = Descriptor.ofSignature b s
  run : l.find? s.name = some f.run

theorem resolve_eq_ok_iff :
    resolve l (exported.map fun s => (s.name, Descriptor.ofSignature b s)) = .ok functions
      ↔ List.Forall₂ (BoundTo b l) exported functions := by
  induction exported generalizing functions with
  | nil => simp [resolve, eq_comm]
  | cons s rest ih =>
    rw [List.map_cons, resolve]
    constructor
    · intro h
      cases hrun : l.find? s.name with
      | none => simp [hrun] at h
      | some run =>
        simp only [hrun] at h
        cases hrest : resolve l (rest.map fun s => (s.name, Descriptor.ofSignature b s)) with
        | error e =>
          rw [hrest] at h
          cases h
        | ok others =>
          rw [hrest] at h
          cases h
          exact .cons ⟨rfl, rfl, hrun⟩ (ih.1 hrest)
    · intro h
      cases h with
      | cons hs hrest =>
        rename_i f others
        simp only [hs.run, ih.2 hrest]
        obtain ⟨name, descriptor, run⟩ := f
        obtain ⟨rfl, rfl, -⟩ := hs
        rfl

theorem resolve_eq_error_iff :
    resolve l (exported.map fun s => (s.name, Descriptor.ofSignature b s)) = .error e
      ↔ ∃ before s after, exported = before ++ s :: after
        ∧ (∀ t ∈ before, (l.find? t.name).isSome) ∧ l.find? s.name = none
        ∧ e = .missingSymbol s.name := by
  induction exported with
  | nil => simp [resolve]
  | cons s rest ih =>
    rw [List.map_cons, resolve]
    cases hrun : l.find? s.name with
    | none =>
      constructor
      · intro h
        cases h
        exact ⟨[], s, rest, rfl, by simp, hrun, rfl⟩
      · rintro ⟨before, t, after, hsplit, hthere, habsent, rfl⟩
        -- The first of all is missing, so nothing stands before it.
        cases before with
        | nil =>
          cases hsplit
          rfl
        | cons u before =>
          cases hsplit
          simp [hrun] at hthere
    | some run =>
      have hmap : ∀ r : Except BindError (List BoundFunction),
          r.map ({ name := s.name, descriptor := Descriptor.ofSignature b s, run } :: ·)
            = .error e ↔ r = .error e := by
        intro r
        cases r <;> simp [Except.map]
      simp only [hmap, ih]
      constructor
      · rintro ⟨before, t, after, rfl, hthere, habsent, he⟩
        exact ⟨s :: before, t, after, rfl, by simpa [hrun] using hthere, habsent, he⟩
      · rintro ⟨before, t, after, hsplit, hthere, habsent, he⟩
        cases before with
        | nil =>
          cases hsplit
          rw [hrun] at habsent
          cases habsent
        | cons u before =>
          cases hsplit
          exact ⟨before, t, after, rfl, fun t ht => hthere t (List.mem_cons_of_mem _ ht), habsent,
            he⟩

end Symbols

/-! ## What a binding shows -/

section Exposed

variable {b : Backend} {l : Library} {signatures exported : List Signature} {m : Binding}
  {functions : List BoundFunction} {s : Signature} {name : String}

/-- What a binding shows of the functions that a source declares, however often it does. -/
structure Exposes (b : Backend) (signatures : List Signature) (l : Library) (m : Binding) :
    Prop where
  /-- The names are in order, and none is there twice. -/
  sorted : m.names.Pairwise (· < ·)
  mem_names : ∀ name, name ∈ m.names ↔ ∃ s ∈ signatures, s.name = name
  /-- Under a name stands its last declaration. -/
  function? : ∀ before s after, signatures = before ++ s :: after →
    (∀ t ∈ after, t.name ≠ s.name) → ∃ f, m.function? s.name = some f ∧ BoundTo b l s f
  absent : ∀ name, (∀ s ∈ signatures, s.name ≠ name) → m.function? name = none

theorem map_name_of_bound (h : List.Forall₂ (BoundTo b l) exported functions) :
    functions.map BoundFunction.name = exported.map Signature.name := by
  induction h with
  | nil => rfl
  | cons hs _ ih => rw [List.map_cons, List.map_cons, hs.name, ih]

theorem find?_of_bound (h : List.Forall₂ (BoundTo b l) exported functions)
    (hfound : exported.find? (·.name == name) = some s) :
    ∃ f, functions.find? (·.name == name) = some f ∧ BoundTo b l s f := by
  induction h with
  | nil => cases hfound
  | @cons t f rest others hf _ ih =>
    by_cases hname : t.name = name
    · rw [List.find?_cons_of_pos (by simp [hname])] at hfound
      cases hfound
      exact ⟨f, List.find?_cons_of_pos (by simp [hf.name, hname]), hf⟩
    · rw [List.find?_cons_of_neg (by simp [hname])] at hfound
      rw [List.find?_cons_of_neg (by simp [hf.name, hname])]
      exact ih hfound

/-- Each element on the left has its partner on the right. -/
theorem exists_partner {α β : Type} {R : α → β → Prop} {left : List α} {right : List β}
    (h : List.Forall₂ R left right) : ∀ x ∈ left, ∃ y ∈ right, R x y := by
  induction h with
  | nil => simp
  | @cons x y _ others hxy _ ih =>
    refine List.forall_mem_cons.2 ⟨⟨y, List.mem_cons_self, hxy⟩, fun x' hx' => ?_⟩
    obtain ⟨y', hy', hxy'⟩ := ih x' hx'
    exact ⟨y', List.mem_cons_of_mem y hy', hxy'⟩

theorem exposes_of_bound
    (h : List.Forall₂ (BoundTo b l) (Signature.exports signatures) m.functions) :
    Exposes b signatures l m := by
  have hnames : m.functions.map BoundFunction.name
      = (signatures.map Signature.name).eraseDups := by
    rw [map_name_of_bound h, Signature.map_name_exports]
  have hperm : m.names.Perm (signatures.map Signature.name).eraseDups := by
    rw [Binding.names, hnames]
    exact List.mergeSort_perm _ _
  have hmem : ∀ name, name ∈ m.names ↔ ∃ s ∈ signatures, s.name = name := by
    intro name
    rw [hperm.mem_iff, List.mem_eraseDups, List.mem_map]
  refine ⟨?_, hmem, ?_, ?_⟩
  · -- In order by the sort, and strictly so as the names are distinct.
    have hle : m.names.Pairwise fun a b => decide (a ≤ b) = true := by
      apply List.pairwise_mergeSort
      · intro x y z hxy hyz
        simp only [decide_eq_true_eq] at hxy hyz ⊢
        exact String.le_trans hxy hyz
      · intro x y
        simpa using String.le_total x y
    have hne : m.names.Nodup := hperm.nodup_iff.2 (Signature.nodup_eraseDups _)
    refine (hle.and hne).imp ?_
    intro x y ⟨hxy, hdiffer⟩
    exact Std.lt_of_le_of_ne (of_decide_eq_true hxy) hdiffer
  · intro before s after hsplit hlast
    subst hsplit
    exact find?_of_bound h (Signature.find?_exports hlast)
  · intro name hnone
    rw [Binding.function?, List.find?_eq_none]
    intro f hf heq
    have hin : name ∈ m.functions.map BoundFunction.name :=
      List.mem_map.2 ⟨f, hf, by simpa using heq⟩
    rw [hnames, List.mem_eraseDups] at hin
    obtain ⟨s, hs, hname⟩ := List.mem_map.1 hin
    exact hnone s hs hname

end Exposed

/-! ## The binding -/

section Outcome

variable {b : Backend} {module : String} {artifact : Path} {signatures : List Signature}
  {strict : Bool} {library : Except LibraryFault Library} {e : BindError}

/-- Everything that a binding can come to, with the reason for it. -/
inductive Outcome (b : Backend) (signatures : List Signature) (strict : Bool)
    (library : Except LibraryFault Library) : Except BindError Binding → Prop where
  /-- Some type is in no table, and the first one is named. -/
  | unmapped {before after : List Signature} {s : Signature} {place : Place} {text : String}
      (checked : strict = true) (split : Signature.exports signatures = before ++ s :: after)
      (known : ∀ t ∈ before, Known b t) (first : Unmapped b s place text) :
      Outcome b signatures strict library (.error (.unmappedType s.name place text))
  /-- The types pass, and the library does not load. -/
  | notLoaded {fault : LibraryFault}
      (known : strict = true → ∀ s ∈ Signature.exports signatures, Known b s)
      (load : library = .error fault) :
      Outcome b signatures strict library (.error (.notLoaded fault))
  /-- The types pass, the library loads, and some symbol is not in it; the first one is named. -/
  | missing {l : Library} {before after : List Signature} {s : Signature}
      (known : strict = true → ∀ s ∈ Signature.exports signatures, Known b s)
      (load : library = .ok l) (split : Signature.exports signatures = before ++ s :: after)
      (there : ∀ t ∈ before, (l.find? t.name).isSome) (absent : l.find? s.name = none) :
      Outcome b signatures strict library (.error (.missingSymbol s.name))
  /-- Nothing is in the way. -/
  | bound {l : Library} {m : Binding}
      (known : strict = true → ∀ s ∈ Signature.exports signatures, Known b s)
      (load : library = .ok l) (there : ∀ s ∈ Signature.exports signatures, (l.find? s.name).isSome)
      (exposes : Exposes b signatures l m) : Outcome b signatures strict library (.ok m)

theorem bind_of_refusal (h : refusal b strict signatures = some e) :
    bind b module artifact signatures strict library = .error e := by
  unfold bind
  unfold refusal at h
  simp only [h]

theorem bind_of_fault {fault : LibraryFault} (h : refusal b strict signatures = none) :
    bind b module artifact signatures strict (.error fault) = .error (.notLoaded fault) := by
  unfold bind
  unfold refusal at h
  simp only [h]

theorem bind_of_library {l : Library} (h : refusal b strict signatures = none) :
    bind b module artifact signatures strict (.ok l)
      = (resolve l ((Signature.exports signatures).map
          fun s => (s.name, Descriptor.ofSignature b s))).map fun functions =>
          { module, artifact, functions, declarations := Declaration.module b module signatures } := by
  rw [← Signature.describe_eq]
  unfold bind
  unfold refusal at h
  simp only [h]

theorem Outcome.bind_eq (h : Outcome b signatures strict library (.error e)) :
    bind b module artifact signatures strict library = .error e := by
  cases h with
  | unmapped checked split known first =>
    exact bind_of_refusal (refusal_eq_some_iff.2
      ⟨checked, _, _, _, _, _, split, known, first, rfl⟩)
  | notLoaded known load =>
    rw [load]
    exact bind_of_fault (refusal_eq_none_iff.2 known)
  | missing known load split there absent =>
    rw [load, bind_of_library (refusal_eq_none_iff.2 known),
      resolve_eq_error_iff.2 ⟨_, _, _, split, there, absent, rfl⟩]
    rfl

/-- What a binding that succeeds has gone through, and what it keeps. -/
theorem bound_of_bind {m : Binding}
    (h : bind b module artifact signatures strict library = .ok m) :
    refusal b strict signatures = none ∧ ∃ l, library = .ok l
      ∧ List.Forall₂ (BoundTo b l) (Signature.exports signatures) m.functions
      ∧ m.declarations = Declaration.module b module signatures := by
  cases hrefusal : refusal b strict signatures with
  | some e =>
    rw [bind_of_refusal hrefusal] at h
    cases h
  | none =>
    cases library with
    | error fault =>
      rw [bind_of_fault hrefusal] at h
      cases h
    | ok l =>
      rw [bind_of_library hrefusal] at h
      cases hresolve : resolve l ((Signature.exports signatures).map
          fun s => (s.name, Descriptor.ofSignature b s)) with
      | error e =>
        rw [hresolve] at h
        cases h
      | ok functions =>
        rw [hresolve] at h
        cases h
        exact ⟨rfl, l, rfl, resolve_eq_ok_iff.1 hresolve, rfl⟩

/-- A binding that fails has a reason to. -/
theorem Outcome.of_bind_eq_error
    (h : bind b module artifact signatures strict library = .error e) :
    Outcome b signatures strict library (.error e) := by
  cases hrefusal : refusal b strict signatures with
  | some found =>
    obtain ⟨checked, before, s, after, place, text, split, known, first, rfl⟩ :=
      refusal_eq_some_iff.1 hrefusal
    rw [bind_of_refusal hrefusal] at h
    cases h
    exact .unmapped checked split known first
  | none =>
    have hknown := refusal_eq_none_iff.1 hrefusal
    cases library with
    | error fault =>
      rw [bind_of_fault hrefusal] at h
      cases h
      exact .notLoaded hknown rfl
    | ok l =>
      rw [bind_of_library hrefusal] at h
      cases hresolve : resolve l ((Signature.exports signatures).map
          fun s => (s.name, Descriptor.ofSignature b s)) with
      | error found =>
        obtain ⟨before, s, after, split, there, absent, rfl⟩ := resolve_eq_error_iff.1 hresolve
        rw [hresolve] at h
        cases h
        exact .missing hknown rfl split there absent
      | ok functions =>
        rw [hresolve] at h
        cases h

/-- A binding comes to what its outcome says, and fails if there is a reason for it. -/
theorem bind_outcome (b : Backend) (module : String) (artifact : Path)
    (signatures : List Signature) (strict : Bool) (library : Except LibraryFault Library) :
    Outcome b signatures strict library (bind b module artifact signatures strict library)
      ∧ ∀ e, Outcome b signatures strict library (.error e) →
        bind b module artifact signatures strict library = .error e := by
  refine ⟨?_, fun e h => h.bind_eq⟩
  cases h : bind b module artifact signatures strict library with
  | error e => exact .of_bind_eq_error h
  | ok m =>
    obtain ⟨hrefusal, l, rfl, hbound, -⟩ := bound_of_bind h
    refine .bound (refusal_eq_none_iff.1 hrefusal) rfl (fun s hs => ?_) (exposes_of_bound hbound)
    obtain ⟨f, -, hf⟩ := exists_partner hbound s hs
    rw [hf.run]
    rfl

/-- The parameter is named as in the last declaration, and the library is not looked at. -/
example : bind .clang "m.c" "m.so" [⟨"f", "int", [⟨"a", "int"⟩]⟩, ⟨"f", "int", [⟨"b", "Widget"⟩]⟩]
    true (.error .missing) = .error (.unmappedType "f" (.parameter "b") "Widget") := rfl

end Outcome

end ForeignModule.Native
