import ForeignModule.Native.Call
import Mathlib.Data.List.Forall2

/-!
# Calls are all or nothing

`Fits` says which values a tag takes and `Carries` which slot holds which value; both do without
the functions that make the slots. A call reaches its function once, with a slot for each value,
or names the leftmost value that does not fit and leaves the function alone.

Main statements:
* `ofValue_settled`: the slot for one value under one tag;
* `slotsFrom_spec`: the slots for a list of values;
* `invoke_allOrNothing`: the call.
-/

namespace ForeignModule.Abi.Descriptor

/-- The tags of the arguments. -/
def tags (d : Descriptor) : List Tag := d.parameters.map SlotType.tag

theorem length_tags (d : Descriptor) : d.tags.length = d.arity := List.length_map ..

/-- A parameter that no table knows counts as `void`. -/
theorem isUnmapped_of_notVoid {d : Descriptor} (h : .void ∉ d.tags) :
    ∀ p ∈ d.parameters, p.isUnmapped = false := by
  intro p hp
  cases p with
  | known t => rfl
  | unmapped text => exact absurd (List.mem_map.2 ⟨_, hp, rfl⟩) h

end ForeignModule.Abi.Descriptor

namespace ForeignModule.Native

open ForeignModule.Abi

/-! ## Values, tags and slots -/

/-- The value is this whole number. -/
inductive Whole : Value → Int → Prop where
  | int (n : Int64) : Whole (.int n) n.toInt
  | uint (n : UInt64) : Whole (.uint n) n.toNat
  | yes : Whole (.bool true) 1
  | no : Whole (.bool false) 0

/-- The value is this floating-point number, perhaps after rounding. -/
inductive Floating : Value → Number.Double → Prop where
  | float (x : Number.Double) : Floating (.float x) x
  | int (n : Int64) : Floating (.int n) (.ofInt n.toInt)
  | uint (n : UInt64) : Floating (.uint n) (.ofInt n.toNat)

/-- A slot with this tag takes the value. No value fits `void`. -/
inductive Fits : Tag → Value → Prop where
  | signed {w : Width} {v : Value} {n : Int} (hv : Whole v n)
      (lower : -Nat.pow 2 (w.bits - 1) ≤ n) (upper : n < Nat.pow 2 (w.bits - 1)) :
      Fits (.signed w) v
  | unsigned {w : Width} {v : Value} {n : Int} (hv : Whole v n)
      (lower : 0 ≤ n) (upper : n < Nat.pow 2 w.bits) : Fits (.unsigned w) v
  | single {v : Value} {x : Number.Double} (hv : Floating v x) : Fits .single v
  | double {v : Value} {x : Number.Double} (hv : Floating v x) : Fits .double v
  | bool {v : Value} {n : Int} (hv : Whole v n) (range : n = 0 ∨ n = 1) : Fits .bool v
  | text {s : String} (clean : '\x00' ∉ s.toList) : Fits .cstring (.text s)
  | null {tag : Tag} (address : tag.isAddress) : Fits tag .null
  | pointer {tag : Tag} (address : tag.isAddress) (a : UInt64) : Fits tag (.pointer a)

/-- The slot holds the value: nothing has wrapped, and nothing is cut off. -/
inductive Carries : Value → Slot → Prop where
  | signed {v : Value} {w : Width} {word : BitVec w.bits} (hv : Whole v word.toInt) :
      Carries v (.signed w word)
  | unsigned {v : Value} {w : Width} {word : BitVec w.bits} (hv : Whole v word.toNat) :
      Carries v (.unsigned w word)
  | single {v : Value} {x : Number.Double} (hv : Floating v x) : Carries v (.single x.toSingle)
  | double {v : Value} {x : Number.Double} (hv : Floating v x) : Carries v (.double x)
  | null : Carries .null (.address (.plain 0))
  | pointer (a : UInt64) : Carries (.pointer a) (.address (.plain a))
  | text (s : String) : Carries (.text s) (.address (.ofBytes (Text.bytes s)))

/-- How a value that does not fit is refused: a text where a text is due has a zero inside it, and
everything else is of the wrong kind or out of range. -/
inductive Refused (index : Nat) : Tag → Value → CallError → Prop where
  | innerZero {s : String} (zero : '\x00' ∈ s.toList) :
      Refused index .cstring (.text s) (.innerZero index)
  | mismatch {tag : Tag} {v : Value} (other : ∀ s, ¬ (tag = .cstring ∧ v = .text s)) :
      Refused index tag v (.mismatch index tag v.kind)

section Slots

variable {tag : Tag} {v : Value} {slot : Slot} {m : Misfit} {n : Int} {w : Width}

theorem wholeNumber?_eq_some_iff : v.wholeNumber? = some n ↔ Whole v n := by
  constructor
  · intro h
    cases v with
    | int k => cases h; exact .int k
    | uint k => cases h; exact .uint k
    | bool b =>
      cases h
      cases b
      · exact .no
      · exact .yes
    | void | float _ | text _ | pointer _ | null => cases h
  · intro h
    cases h <;> rfl

theorem double?_eq_some_iff {x : Number.Double} : v.double? = some x ↔ Floating v x := by
  constructor
  · intro h
    cases v with
    | float y => cases h; exact .float x
    | int k => cases h; exact .int k
    | uint k => cases h; exact .uint k
    | void | bool _ | text _ | pointer _ | null => cases h
  · intro h
    cases h <;> rfl

/-- A value is one whole number at most. -/
theorem Whole.unique {k : Int} (hn : Whole v n) (hk : Whole v k) : n = k :=
  Option.some_inj.1 ((wholeNumber?_eq_some_iff.2 hn).symm.trans (wholeNumber?_eq_some_iff.2 hk))

theorem fits_signed_iff : Fits (.signed w) v
    ↔ ∃ n, Whole v n ∧ -Nat.pow 2 (w.bits - 1) ≤ n ∧ n < Nat.pow 2 (w.bits - 1) := by
  constructor
  · intro h
    cases h with
    | signed hv lower upper => exact ⟨_, hv, lower, upper⟩
    | null address | pointer address => simp [Tag.isAddress] at address
  · rintro ⟨n, hv, lower, upper⟩
    exact .signed hv lower upper

theorem fits_unsigned_iff : Fits (.unsigned w) v
    ↔ ∃ n, Whole v n ∧ 0 ≤ n ∧ n < Nat.pow 2 w.bits := by
  constructor
  · intro h
    cases h with
    | unsigned hv lower upper => exact ⟨_, hv, lower, upper⟩
    | null address | pointer address => simp [Tag.isAddress] at address
  · rintro ⟨n, hv, lower, upper⟩
    exact .unsigned hv lower upper

theorem fits_bool_iff : Fits .bool v ↔ ∃ n, Whole v n ∧ (n = 0 ∨ n = 1) := by
  constructor
  · intro h
    cases h with
    | bool hv range => exact ⟨_, hv, range⟩
    | null address | pointer address => simp [Tag.isAddress] at address
  · rintro ⟨n, hv, range⟩
    exact .bool hv range

theorem fits_floating_iff (htag : tag = .single ∨ tag = .double) :
    Fits tag v ↔ ∃ x, Floating v x := by
  constructor
  · intro h
    cases h with
    | single hv | double hv => exact ⟨_, hv⟩
    | null address | pointer address =>
      rcases htag with rfl | rfl <;> simp [Tag.isAddress] at address
    | _ => simp at htag
  · rintro ⟨x, hv⟩
    rcases htag with rfl | rfl
    · exact .single hv
    · exact .double hv

theorem not_fits_void : ¬ Fits .void v := by
  intro h
  cases h with
  | null address | pointer address => simp [Tag.isAddress] at address

/-- All there is to say about the slot for a value: either the value fits, and the slot has the
storage of the tag and carries the value, or it does not, and is refused. -/
inductive Settled (tag : Tag) (v : Value) : Except Misfit Slot → Prop where
  | slot {slot : Slot} (fits : Fits tag v) (carries : Carries v slot)
      (storage : slot.storage = .ofTag tag) : Settled tag v (.ok slot)
  | misfit {m : Misfit} (misfit : ¬ Fits tag v)
      (refused : ∀ i, Refused i tag v (.ofMisfit i tag v m)) : Settled tag v (.error m)

/-- Outside texts, a misfit is a mismatch. -/
theorem Settled.mismatch (htag : tag ≠ .cstring) (misfit : ¬ Fits tag v) :
    Settled tag v (.error .mismatch) :=
  .misfit misfit fun _ => .mismatch fun _ h => htag h.1

theorem ofSigned_settled (hv : Whole v n) : Settled (.signed w) v (Slot.ofSigned w n) := by
  unfold Slot.ofSigned
  split
  case isTrue range =>
    obtain ⟨lower, upper⟩ := range
    -- In range the word has the number as its signed value: nothing wraps.
    have hword : (BitVec.ofInt w.bits n).toInt = n := by
      rw [BitVec.toInt_ofInt]
      apply Int.bmod_eq_of_le <;> cases w <;> simp [Width.bits] at * <;> omega
    exact .slot (.signed hv lower upper) (.signed (by rwa [hword])) rfl
  case isFalse range =>
    refine .mismatch (by simp) fun h => range ?_
    obtain ⟨k, hk, bounds⟩ := fits_signed_iff.1 h
    rwa [hv.unique hk]

theorem ofUnsigned_settled (hv : Whole v n) : Settled (.unsigned w) v (Slot.ofUnsigned w n) := by
  unfold Slot.ofUnsigned
  split
  case isTrue range =>
    obtain ⟨lower, upper⟩ := range
    have hword : ((BitVec.ofInt w.bits n).toNat : Int) = n := by
      rw [BitVec.toNat_ofInt]
      cases w <;> simp [Width.bits] at * <;> omega
    exact .slot (.unsigned hv lower upper) (.unsigned (by rwa [hword])) rfl
  case isFalse range =>
    refine .mismatch (by simp) fun h => range ?_
    obtain ⟨k, hk, bounds⟩ := fits_unsigned_iff.1 h
    rwa [hv.unique hk]

/-- A truth value takes a byte, which holds zero or one. -/
theorem ofTruth_settled (hv : Whole v n) : Settled .bool v
    (if n = 0 ∨ n = 1 then Slot.ofUnsigned .w8 n else .error .mismatch) := by
  split
  case isTrue range =>
    -- The slot is that of a byte, and both zero and one fit into a byte.
    have byte := ofUnsigned_settled (w := .w8) hv
    cases h : Slot.ofUnsigned .w8 n with
    | ok slot =>
      rw [h] at byte
      cases byte with
      | slot _ carries storage => exact .slot (.bool hv range) carries storage
    | error m =>
      rw [h] at byte
      cases byte with
      | misfit misfit _ =>
        refine absurd (.unsigned hv ?_ ?_) misfit <;>
          rcases range with rfl | rfl <;> decide
  case isFalse range =>
    refine .mismatch (by simp) fun h => range ?_
    obtain ⟨k, hk, hone⟩ := fits_bool_iff.1 h
    rwa [hv.unique hk]

/-- A slot for an address takes addresses, and where texts are due also texts without a zero. -/
theorem ofAddress_settled (htag : tag.isAddress) :
    Settled tag v (Slot.ofAddress (tag == .cstring) v) := by
  have hstorage : Storage.ofTag tag = .address := by
    cases tag <;> first | rfl | cases htag
  cases v with
  | null => exact .slot (.null htag) .null hstorage.symm
  | pointer a => exact .slot (.pointer htag a) (.pointer a) hstorage.symm
  | text s =>
    -- A text is an address only where texts are due, and only if no zero would end it early.
    by_cases hc : tag = .cstring
    · subst hc
      by_cases zero : '\x00' ∈ s.toList
      · have hs : Slot.ofAddress true (.text s) = .error .innerZero := by
          simp [Slot.ofAddress, zero]
        refine hs ▸ .misfit ?_ fun i => .innerZero zero
        intro h
        cases h with
        | text clean => exact clean zero
      · have hs : Slot.ofAddress true (.text s) = .ok (.address (.ofBytes (Text.bytes s))) := by
          simp [Slot.ofAddress, zero]
        exact hs ▸ .slot (.text zero) (.text s) rfl
    · have hs : Slot.ofAddress (tag == .cstring) (.text s) = .error .mismatch := by
        simp [Slot.ofAddress, hc]
      refine hs ▸ .mismatch hc ?_
      intro h
      cases h <;> simp_all [Tag.isAddress]
  | void | bool _ | int _ | uint _ | float _ =>
    refine .misfit ?_ fun i => .mismatch fun _ h => nomatch h.2
    intro h
    cases h <;> simp [Tag.isAddress] at htag

/-- A slot that is made from the whole number is settled if it is for whole numbers. -/
theorem Settled.ofWhole {make : Int → Except Misfit Slot} (htag : tag ≠ .cstring)
    (hfit : Fits tag v → ∃ n, Whole v n) (hmake : ∀ n, Whole v n → Settled tag v (make n)) :
    Settled tag v (match v.wholeNumber? with | some n => make n | none => .error .mismatch) := by
  cases h : v.wholeNumber? with
  | some n => exact hmake n (wholeNumber?_eq_some_iff.1 h)
  | none =>
    refine .mismatch htag fun hf => ?_
    obtain ⟨n, hn⟩ := hfit hf
    rw [wholeNumber?_eq_some_iff.2 hn] at h
    cases h

theorem Settled.ofFloating {make : Number.Double → Slot} (htag : tag = .single ∨ tag = .double)
    (hmake : ∀ x, Floating v x → Carries v (make x) ∧ (make x).storage = .ofTag tag) :
    Settled tag v (match v.double? with | some x => .ok (make x) | none => .error .mismatch) := by
  cases h : v.double? with
  | some x =>
    have hx := double?_eq_some_iff.1 h
    exact .slot ((fits_floating_iff htag).2 ⟨x, hx⟩) (hmake x hx).1 (hmake x hx).2
  | none =>
    refine .mismatch (by rcases htag with rfl | rfl <;> simp) fun hf => ?_
    obtain ⟨x, hx⟩ := (fits_floating_iff htag).1 hf
    rw [double?_eq_some_iff.2 hx] at h
    cases h

/-- Every slot is settled, whatever the tag and the value. -/
theorem ofValue_settled (tag : Tag) (v : Value) : Settled tag v (Slot.ofValue tag v) := by
  cases tag with
  | signed w =>
    refine .ofWhole (by simp) (fun hf => ?_) fun n hn => ofSigned_settled hn
    obtain ⟨n, hn, -⟩ := fits_signed_iff.1 hf
    exact ⟨n, hn⟩
  | unsigned w =>
    refine .ofWhole (by simp) (fun hf => ?_) fun n hn => ofUnsigned_settled hn
    obtain ⟨n, hn, -⟩ := fits_unsigned_iff.1 hf
    exact ⟨n, hn⟩
  | bool =>
    refine .ofWhole (by simp) (fun hf => ?_) fun n hn => ofTruth_settled hn
    obtain ⟨n, hn, -⟩ := fits_bool_iff.1 hf
    exact ⟨n, hn⟩
  | single => exact .ofFloating (.inl rfl) fun x hx => ⟨.single hx, rfl⟩
  | double => exact .ofFloating (.inr rfl) fun x hx => ⟨.double hx, rfl⟩
  | cstring | pointer | function => exact ofAddress_settled rfl
  | void => exact .mismatch (by simp) not_fits_void

end Slots

/-! ## The arguments of a call -/

/-- The argument at `index` is the leftmost one that does not fit its tag. -/
structure LeftmostMisfit (tags : List Tag) (values : List Value) (index : Nat) (tag : Tag)
    (v : Value) : Prop where
  tag_at : tags[index]? = some tag
  value_at : values[index]? = some v
  misfit : ¬ Fits tag v
  before : ∀ j < index, ∀ t u, tags[j]? = some t → values[j]? = some u → Fits t u

/-- The slots that a function gets for values: one for each, in order, each with the storage that
its tag asks for, and none of them for `void`. -/
structure WellTyped (tags : List Tag) (values : List Value) (arguments : List Slot) : Prop where
  carried : List.Forall₂ Carries values arguments
  storage : arguments.map Slot.storage = tags.map Storage.ofTag
  notVoid : .void ∉ tags

section Arguments

variable {tag : Tag} {tags : List Tag} {v : Value} {values : List Value}

theorem LeftmostMisfit.head (h : ¬ Fits tag v) :
    LeftmostMisfit (tag :: tags) (v :: values) 0 tag v :=
  ⟨rfl, rfl, h, fun _ hj => absurd hj (Nat.not_lt_zero _)⟩

theorem LeftmostMisfit.tail {index : Nat} {t : Tag} {u : Value} (h : Fits tag v)
    (hrest : LeftmostMisfit tags values index t u) :
    LeftmostMisfit (tag :: tags) (v :: values) (index + 1) t u := by
  refine ⟨hrest.tag_at, hrest.value_at, hrest.misfit, ?_⟩
  intro j hj t' u' ht hu
  cases j with
  | zero =>
    cases ht
    cases hu
    exact h
  | succ j => exact hrest.before j (Nat.lt_of_succ_lt_succ hj) t' u' ht hu

theorem WellTyped.cons {slot : Slot} {arguments : List Slot} (hfit : Fits tag v)
    (hcarries : Carries v slot) (hstorage : slot.storage = .ofTag tag)
    (hrest : WellTyped tags values arguments) :
    WellTyped (tag :: tags) (v :: values) (slot :: arguments) where
  carried := .cons hcarries hrest.carried
  storage := by rw [List.map_cons, List.map_cons, hstorage, hrest.storage]
  notVoid := by
    intro h
    rcases List.mem_cons.1 h with rfl | h
    · exact not_fits_void hfit
    · exact hrest.notVoid h

/-- Either all values fit and get their slots, or the leftmost misfit is refused. The argument
that `index` counts is the first of the list. -/
theorem slotsFrom_spec (index : Nat) (hlength : values.length = tags.length) :
    (List.Forall₂ Fits tags values
      ∧ ∃ arguments, slotsFrom index tags values = .ok arguments ∧ WellTyped tags values arguments)
    ∨ (¬ List.Forall₂ Fits tags values
      ∧ ∃ i t u e, LeftmostMisfit tags values i t u ∧ Refused (index + i) t u e
        ∧ slotsFrom index tags values = .error e) := by
  -- On the two lists at once; the count moves on with them.
  induction tags generalizing values index with
  | nil =>
    obtain rfl : values = [] := List.length_eq_zero_iff.1 hlength
    exact .inl ⟨.nil, [], rfl, .nil, rfl, by simp⟩
  | cons tag tags ih =>
    cases values with
    | nil => cases hlength
    | cons v values =>
      have hslot := ofValue_settled tag v
      rw [slotsFrom]
      cases h : Slot.ofValue tag v with
      | error m =>
        rw [h] at hslot
        cases hslot with
        | misfit misfit refused =>
          -- Nothing to the right of it is looked at.
          refine .inr ⟨?_, 0, tag, v, _, .head misfit, refused index, rfl⟩
          intro hall
          exact misfit (List.forall₂_cons.1 hall).1
      | ok slot =>
        rw [h] at hslot
        cases hslot with
        | slot fits carries storage =>
          rcases ih (index + 1) (Nat.succ.inj hlength) with
            ⟨hall, arguments, hrest, typed⟩ | ⟨hnone, i, t, u, e, leftmost, refused, hrest⟩
          · exact .inl ⟨.cons fits hall, slot :: arguments, by rw [hrest]; rfl,
              .cons fits carries storage typed⟩
          · refine .inr ⟨fun hall => hnone (List.forall₂_cons.1 hall).2, i + 1, t, u, e,
              .tail fits leftmost, ?_, by rw [hrest]; rfl⟩
            rwa [Nat.add_comm i 1, ← Nat.add_assoc]

end Arguments

/-! ## The call -/

section Invoke

variable {σ : Type}

/-- A function that also notes what it is called with. -/
def noted (function : List Slot → StateM σ Returned) (arguments : List Slot) :
    StateM (σ × List (List Slot)) Returned :=
  fun (state, calls) =>
    let (returned, after) := (function arguments).run state
    (returned, (after, calls ++ [arguments]))

/-- What a call comes to, from the state and the calls so far: its answer, the state and the calls
afterwards. -/
structure AllOrNothing (d : Descriptor) (function : List Slot → StateM σ Returned)
    (values : List Value) (state : σ) (calls : List (List Slot))
    (answer : Except CallError Value) (after : σ × List (List Slot)) : Prop where
  /-- The wrong number of values is an error with both numbers, and nothing is called. -/
  arity : values.length ≠ d.arity →
    answer = .error (.arity d.arity values.length) ∧ after = (state, calls)
  /-- The leftmost misfit is the error, and nothing is called. -/
  misfit : values.length = d.arity → ¬ List.Forall₂ Fits d.tags values →
    (∃ i tag v e, LeftmostMisfit d.tags values i tag v ∧ Refused i tag v e
      ∧ answer = .error e) ∧ after = (state, calls)
  /-- The function is called once if all values fit, and only then. -/
  once : (∃ arguments, after.2 = calls ++ [arguments])
    ↔ List.Forall₂ Fits d.tags values
  /-- What the function is called with, and what becomes of its answer. -/
  typed : ∀ arguments, after.2 = calls ++ [arguments] →
    WellTyped d.tags values arguments ∧ (∀ p ∈ d.parameters, p.isUnmapped = false)
      ∧ answer = .ok (((function arguments).run state).1.value d.result.tag)
      ∧ after.1 = ((function arguments).run state).2

variable {d : Descriptor} {function : List Slot → StateM σ Returned} {values : List Value}
  {state : σ} {calls : List (List Slot)}

theorem run_invoke_of_error {e : CallError} (h : slots d values = .error e) :
    (invoke d (noted function) values).run (state, calls) = (.error e, (state, calls)) := by
  unfold invoke
  rw [h]
  rfl

theorem run_invoke_of_ok {arguments : List Slot} (h : slots d values = .ok arguments) :
    (invoke d (noted function) values).run (state, calls)
      = (.ok (((function arguments).run state).1.value d.result.tag),
          (((function arguments).run state).2, calls ++ [arguments])) := by
  unfold invoke
  rw [h]
  rfl

/-- A call that is refused settles everything at once: the function is not called. -/
theorem AllOrNothing.refused {e : CallError} (hnone : ¬ List.Forall₂ Fits d.tags values)
    (arity : values.length ≠ d.arity → e = .arity d.arity values.length)
    (misfit : values.length = d.arity →
      ∃ i tag v, LeftmostMisfit d.tags values i tag v ∧ Refused i tag v e) :
    AllOrNothing d function values state calls (.error e) (state, calls) where
  arity h := ⟨by rw [arity h], rfl⟩
  misfit h _ := by
    obtain ⟨i, tag, v, leftmost, refused⟩ := misfit h
    exact ⟨⟨i, tag, v, e, leftmost, refused, rfl⟩, rfl⟩
  once := by simp [hnone]
  typed _ h := by simp at h

theorem AllOrNothing.called {arguments : List Slot} (hall : List.Forall₂ Fits d.tags values)
    (typed : WellTyped d.tags values arguments) :
    AllOrNothing d function values state calls
      (.ok (((function arguments).run state).1.value d.result.tag))
      (((function arguments).run state).2, calls ++ [arguments]) where
  arity h := by
    refine absurd ?_ h
    rw [← hall.length_eq, Descriptor.length_tags]
  misfit _ hnone := absurd hall hnone
  once := ⟨fun _ => hall, fun _ => ⟨arguments, rfl⟩⟩
  typed other h := by
    obtain rfl : arguments = other := by simpa using h
    exact ⟨typed, Descriptor.isUnmapped_of_notVoid typed.notVoid, rfl, rfl⟩

/-- A call is all or nothing, whatever the function does with its state. -/
theorem invoke_allOrNothing (d : Descriptor) (function : List Slot → StateM σ Returned)
    (values : List Value) (state : σ) (calls : List (List Slot)) :
    AllOrNothing d function values state calls
      ((invoke d (noted function) values).run (state, calls)).1
      ((invoke d (noted function) values).run (state, calls)).2 := by
  by_cases hlength : values.length = d.arity
  · have hslots : slots d values = slotsFrom 0 d.tags values := if_pos hlength
    rcases slotsFrom_spec 0 (hlength.trans d.length_tags.symm) with
      ⟨hall, arguments, hok, typed⟩ | ⟨hnone, i, tag, v, e, leftmost, refused, herror⟩
    · rw [run_invoke_of_ok (hslots.trans hok)]
      exact .called hall typed
    · rw [run_invoke_of_error (hslots.trans herror)]
      rw [Nat.zero_add] at refused
      exact .refused hnone (absurd hlength) fun _ => ⟨i, tag, v, leftmost, refused⟩
  · have hslots : slots d values = .error (.arity d.arity values.length) := if_neg hlength
    rw [run_invoke_of_error hslots]
    refine .refused (fun hall => hlength ?_) (fun _ => rfl) fun h => absurd h hlength
    rw [← hall.length_eq, Descriptor.length_tags]

/-- A parameter of a type that no table knows keeps the function from being reached. -/
example : (invoke ⟨[.unmapped "Widget"], .known .void⟩ (noted fun _ => pure .nothing) [.int 1]).run
    ((), []) = (.error (.mismatch 0 .void "int"), ((), [])) := rfl

end Invoke

end ForeignModule.Native
