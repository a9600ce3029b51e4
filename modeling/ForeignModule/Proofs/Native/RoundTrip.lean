import ForeignModule.Proofs.Native.Calling
import ForeignModule.Proofs.Text.Utf8

/-!
# Values that cross the call boundary and come back

`Echoes` says what a function leaves behind that returns its argument, and `Survives` which value
comes back for which. An integer comes back in a register that is wider than its slot; whatever the
function leaves in the other bits, the value is the same. An address comes back as it went in, but
for zero, and a text comes back through its bytes.

Main statements:
* `value_survives`: what a slot carries is read back from what echoes it;
* `invoke_returnsArgument`: the call of a function that returns its argument.
-/

namespace ForeignModule.Native

open ForeignModule.Abi

/-! ## What comes back -/

/-- What a function leaves behind that returns its argument. Of a register only the bits of the
argument are told; the others are anything. -/
inductive Echoes : Slot → Returned → Prop where
  | signed {w : Width} {word : BitVec w.bits} {register : BitVec 64}
      (low : register.setWidth w.bits = word) : Echoes (.signed w word) (.register register)
  | unsigned {w : Width} {word : BitVec w.bits} {register : BitVec 64}
      (low : register.setWidth w.bits = word) : Echoes (.unsigned w word) (.register register)
  | single (word : UInt32) : Echoes (.single word) (.single word)
  | double (x : Number.Double) : Echoes (.double x) (.double x)
  | address (a : Address) : Echoes (.address a) (.address a)
  /-- A plain address is a whole register. -/
  | plain (a : UInt64) : Echoes (.address (.plain a)) (.register a.toBitVec)

/-- The second value is the first one as it is read back under the tag: the same whole number, the
same truth value, the same text or the same address. Zero and one are truth values, truth values
are zero and one, and the address zero is the null pointer. -/
inductive Survives : Tag → Value → Value → Prop where
  | signed {w : Width} {v : Value} {n : Int64} (hv : Whole v n.toInt) :
      Survives (.signed w) v (.int n)
  | unsigned {w : Width} {v : Value} {n : UInt64} (hv : Whole v n.toNat) :
      Survives (.unsigned w) v (.uint n)
  | yes {v : Value} (hv : Whole v 1) : Survives .bool v (.bool true)
  | no {v : Value} (hv : Whole v 0) : Survives .bool v (.bool false)
  | text (s : String) : Survives .cstring (.text s) (.text s)
  | null {tag : Tag} (address : tag.isAddress) : Survives tag .null .null
  | zero {tag : Tag} (htag : tag = .pointer ∨ tag = .function) :
      Survives tag (.pointer 0) .null
  | pointer {tag : Tag} (htag : tag = .pointer ∨ tag = .function) {a : UInt64} (nonzero : a ≠ 0) :
      Survives tag (.pointer a) (.pointer a)

/-- Values that come back as they went in. Floating-point numbers may be rounded on the way in,
and an address under a tag for texts comes back as the text behind it. -/
structure Returnable (tag : Tag) (v : Value) : Prop where
  notFloating : tag ≠ .single ∧ tag ≠ .double
  notAddress : tag = .cstring → ∀ a, v ≠ .pointer a

section Reading

variable {tag : Tag} {v : Value} {slot : Slot} {r : Returned} {w : Width}

/-- Widening with the sign keeps the number, whatever the width. -/
theorem toInt_ofInt_toInt (word : BitVec w.bits) : (Int64.ofInt word.toInt).toInt = word.toInt := by
  have lower := BitVec.le_toInt word
  have upper := BitVec.toInt_lt (x := word)
  rw [Int64.toInt_ofInt]
  apply Int.bmod_eq_of_le <;> cases w <;> simp [Width.bits] at * <;> omega

/-- Widening without a sign keeps the number, whatever the width. -/
theorem toNat_ofNat_toNat (word : BitVec w.bits) : (UInt64.ofNat word.toNat).toNat = word.toNat := by
  have upper := word.isLt
  rw [UInt64.toNat_ofNat']
  cases w <;> simp [Width.bits] at * <;> omega

theorem Carries.exists_signed (carries : Carries v slot) (storage : slot.storage = .signed w) :
    ∃ word : BitVec w.bits, slot = .signed w word ∧ Whole v word.toInt := by
  cases carries with
  | signed hv =>
    cases storage
    exact ⟨_, rfl, hv⟩
  | _ => cases storage

theorem Carries.exists_unsigned (carries : Carries v slot) (storage : slot.storage = .unsigned w) :
    ∃ word : BitVec w.bits, slot = .unsigned w word ∧ Whole v word.toNat := by
  cases carries with
  | unsigned hv =>
    cases storage
    exact ⟨_, rfl, hv⟩
  | _ => cases storage

theorem value_signed {word : BitVec w.bits} (hv : Whole v word.toInt)
    (h : Echoes (.signed w word) r) : Survives (.signed w) v (r.value (.signed w)) := by
  cases h with
  | signed low =>
    refine .signed ?_
    rw [Returned.word, low, toInt_ofInt_toInt]
    exact hv

theorem value_unsigned {word : BitVec w.bits} (hv : Whole v word.toNat)
    (h : Echoes (.unsigned w word) r) : Survives (.unsigned w) v (r.value (.unsigned w)) := by
  cases h with
  | unsigned low =>
    refine .unsigned ?_
    rw [Returned.word, low, toNat_ofNat_toNat]
    exact hv

/-- A truth value is read from the lowest byte of the register. -/
theorem value_bool {word : BitVec (Width.bits .w8)} (hv : Whole v word.toNat)
    (range : word.toNat = 0 ∨ word.toNat = 1) (h : Echoes (.unsigned .w8 word) r) :
    Survives .bool v (r.value .bool) := by
  have hvalue : r.value .bool = .bool (word.toNat != 0) := by
    cases h with
    | unsigned low => exact congrArg (fun byte => Value.bool (byte.toNat != 0)) low
  rw [hvalue]
  rcases range with hzero | hone
  · rw [hzero] at hv ⊢
    exact .no hv
  · rw [hone] at hv ⊢
    exact .yes hv

/-- An address is read from the whole register; the null pointer is the address zero. -/
theorem value_pointer (htag : tag = .pointer ∨ tag = .function) {a : UInt64}
    (h : Echoes (.address (.plain a)) r) :
    r.value tag = if a = 0 then .null else .pointer a := by
  have hword : r.word = a.toBitVec := by
    cases h <;> rfl
  have hvalue : r.value tag = if r.word = 0 then .null else .pointer ⟨r.word⟩ := by
    rcases htag with rfl | rfl <;> rfl
  have hzero : a.toBitVec = 0 ↔ a = 0 := UInt64.toBitVec_inj (b := 0)
  simp only [hvalue, hword, hzero]

theorem value_null (htag : tag.isAddress) (h : Echoes (.address (.plain 0)) r) :
    r.value tag = .null := by
  cases tag with
  | pointer => rw [value_pointer (.inl rfl) h, if_pos rfl]
  | function => rw [value_pointer (.inr rfl) h, if_pos rfl]
  | cstring => cases h <;> rfl
  | _ => cases htag

theorem value_text {s : String} (clean : '\x00' ∉ s.toList)
    (h : Echoes (.address (.ofBytes (Text.bytes s))) r) : r.value .cstring = .text s := by
  cases h with
  | address => simp only [Returned.value, Text.takeWhile_bytes clean, Text.decodeLossy_bytes]

/-- An address or a text under a tag that takes it. -/
theorem value_address (htag : tag.isAddress) (hback : Returnable tag v) (fits : Fits tag v)
    (carries : Carries v slot) (storage : slot.storage = .address) (h : Echoes slot r) :
    Survives tag v (r.value tag) := by
  cases carries with
  | null =>
    rw [value_null htag h]
    exact .null htag
  | pointer a =>
    have hplain : tag = .pointer ∨ tag = .function := by
      cases tag with
      | pointer => exact .inl rfl
      | function => exact .inr rfl
      | cstring => exact absurd rfl (hback.notAddress rfl a)
      | _ => cases htag
    rw [value_pointer hplain h]
    split
    case isTrue hzero =>
      subst hzero
      exact .zero hplain
    case isFalse nonzero => exact .pointer hplain nonzero
  | text s =>
    -- Only a slot for texts has taken the text, and only as it has no zero.
    cases fits with
    | text clean =>
      rw [value_text clean h]
      exact .text s
    | signed hv | unsigned hv | bool hv | single hv | double hv => cases hv
  | _ => cases storage

/-- What a slot carries is read back from what echoes it. -/
theorem value_survives (hback : Returnable tag v) (hslot : Slot.ofValue tag v = .ok slot)
    (h : Echoes slot r) : Survives tag v (r.value tag) := by
  have hsettled := hslot ▸ ofValue_settled tag v
  cases hsettled with
  | slot fits carries storage =>
    cases tag with
    | signed w =>
      obtain ⟨word, rfl, hv⟩ := carries.exists_signed storage
      exact value_signed hv h
    | unsigned w =>
      obtain ⟨word, rfl, hv⟩ := carries.exists_unsigned storage
      exact value_unsigned hv h
    | bool =>
      obtain ⟨word, rfl, hv⟩ := carries.exists_unsigned storage
      obtain ⟨n, hn, range⟩ := fits_bool_iff.1 fits
      rw [hn.unique hv] at range
      exact value_bool hv (by omega) h
    | cstring | pointer | function => exact value_address rfl hback fits carries storage h
    | single => exact absurd rfl hback.notFloating.1
    | double => exact absurd rfl hback.notFloating.2
    | void => exact absurd fits not_fits_void

end Reading

/-! ## The call -/

section Call

variable {σ : Type} {tag : Tag} {v : Value} {slot : Slot} {w : Width}

/-- A function of one argument that returns it as it got it, in every state. What it leaves in the
rest of a register may depend on the state. -/
def ReturnsArgument (function : List Slot → StateM σ Returned) : Prop :=
  ∀ slot state, Echoes slot ((function [slot]).run state).1

/-- A value that its slot takes survives the call of a function that returns its argument. -/
theorem invoke_returnsArgument {function : List Slot → StateM σ Returned}
    (hback : Returnable tag v) (haccepted : Slot.ofValue tag v = .ok slot)
    (hfunction : ReturnsArgument function) (state : σ) :
    ∃ back, ((invoke ⟨[.known tag], .known tag⟩ function [v]).run state).1 = .ok back
      ∧ Survives tag v back := by
  have hslots : slots ⟨[.known tag], .known tag⟩ [v] = .ok [slot] := by
    simp [slots, Descriptor.arity, slotsFrom, SlotType.tag, haccepted, Except.map]
  have hrun : ((invoke ⟨[.known tag], .known tag⟩ function [v]).run state).1
      = .ok (((function [slot]).run state).1.value tag) := by
    rw [invoke, hslots]
    rfl
  exact ⟨_, hrun, value_survives hback haccepted (hfunction slot state)⟩

/-- A register with a word in its lowest bits, and its other bits as they are. -/
def overwrite {n : Nat} (register : BitVec 64) (word : BitVec n) : BitVec 64 :=
  ((register >>> n) <<< n) ||| word.setWidth 64

theorem setWidth_overwrite (register : BitVec 64) (word : BitVec w.bits) :
    (overwrite register word).setWidth w.bits = word := by
  have hwidth : w.bits ≤ 64 := by
    cases w <;> decide
  ext i hi
  have hlow : i < 64 := by omega
  simp [overwrite, hi, hlow]

/-- A function that returns its argument and writes no more of the register than it has to. -/
def returning (arguments : List Slot) : StateM (BitVec 64) Returned := fun register =>
  match arguments with
  | .signed _ word :: _ => (.register (overwrite register word), register)
  | .unsigned _ word :: _ => (.register (overwrite register word), register)
  | .single word :: _ => (.single word, register)
  | .double x :: _ => (.double x, register)
  | .address a :: _ => (.address a, register)
  | [] => (.nothing, register)

theorem returning_returnsArgument : ReturnsArgument returning := by
  intro slot register
  cases slot with
  | signed w word => exact .signed (setWidth_overwrite register word)
  | unsigned w word => exact .unsigned (setWidth_overwrite register word)
  | single word => exact .single word
  | double x => exact .double x
  | address a => exact .address a

/-- A negative number survives in a register that was full of other bits. -/
theorem invoke_returnsArgument_negative :
    Slot.ofValue (.signed .w16) (.int (-2)) = .ok (.signed .w16 0xfffe) ∧
      ∃ back,
        ((invoke ⟨[.known (.signed .w16)], .known (.signed .w16)⟩ returning [.int (-2)]).run
          0x0123456789abcdef).1 = .ok back ∧ Survives (.signed .w16) (.int (-2)) back :=
  ⟨rfl, invoke_returnsArgument ⟨by simp, by simp⟩ rfl returning_returnsArgument _⟩

end Call

end ForeignModule.Native
