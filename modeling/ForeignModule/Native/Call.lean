import ForeignModule.Abi.Tag
import ForeignModule.Native.Value
import ForeignModule.Text.Utf8

/-!
# Calls

A call checks the number of values, puts each value into a slot of the width and class that its
tag asks for, runs the function, and reads back what the function leaves behind. A value that its
slot cannot hold stops the call before the function runs: nothing wraps, and nothing is cut off.
-/

namespace ForeignModule.Native

open ForeignModule.Abi

/-- What a pointer points to, as far as a call can tell. -/
inductive Address where
  /-- A plain address; zero is the null pointer. -/
  | plain (address : UInt64)
  /-- The start of these bytes, which a zero follows. -/
  | ofBytes (content : List UInt8)
deriving DecidableEq, Repr, Inhabited

/-- The storage of one argument. -/
inductive Slot where
  | signed (width : Width) (word : BitVec width.bits)
  | unsigned (width : Width) (word : BitVec width.bits)
  | single (word : UInt32)
  | double (x : Number.Double)
  | address (a : Address)
deriving Repr, Inhabited

/-- What a function leaves behind. An integer comes in a whole register, whatever its width. -/
inductive Returned where
  | nothing
  | register (word : BitVec 64)
  | single (word : UInt32)
  | double (x : Number.Double)
  | address (a : Address)
deriving DecidableEq, Repr, Inhabited

/-- The width and class of a slot. -/
inductive Storage where
  | signed (width : Width)
  | unsigned (width : Width)
  | single
  | double
  | address
  | nothing
deriving DecidableEq, Repr, Inhabited

/-- The width and class that a tag asks for. A truth value takes a byte. -/
def Storage.ofTag : Tag → Storage
  | .signed w => signed w
  | .unsigned w => unsigned w
  | .single => single
  | .double => double
  | .bool => unsigned .w8
  | .cstring | .pointer | .function => address
  | .void => nothing

/-- The width and class of a slot. -/
def Slot.storage : Slot → Storage
  | signed w _ => .signed w
  | unsigned w _ => .unsigned w
  | single _ => .single
  | double _ => .double
  | address _ => .address

/-! ## Values into slots -/

namespace Value

/-- The whole number that a value stands for. Truth values count as zero and one. -/
def wholeNumber? : Value → Option Int
  | int n => some n.toInt
  | uint n => some n.toNat
  | bool b => some (if b then 1 else 0)
  | _ => none

/-- The floating-point number that a value stands for. Truth values are none. -/
def double? : Value → Option Number.Double
  | float x => some x
  | int n => some (.ofInt n.toInt)
  | uint n => some (.ofInt n.toNat)
  | _ => none

end Value

/-- Why a value does not go into a slot. -/
inductive Misfit where
  | mismatch
  /-- A zero inside a text would cut it short. -/
  | innerZero
deriving DecidableEq, Repr, Inhabited

namespace Slot

/-- A slot for a signed number. -/
def ofSigned (w : Width) (n : Int) : Except Misfit Slot :=
  if -Nat.pow 2 (w.bits - 1) ≤ n ∧ n < Nat.pow 2 (w.bits - 1) then .ok (signed w (.ofInt _ n))
  else .error .mismatch

/-- A slot for an unsigned number. -/
def ofUnsigned (w : Width) (n : Int) : Except Misfit Slot :=
  if 0 ≤ n ∧ n < Nat.pow 2 w.bits then .ok (unsigned w (.ofInt _ n)) else .error .mismatch

/-- A slot for an address. Only a slot for texts takes a text, and takes a copy of it. -/
def ofAddress (takesText : Bool) : Value → Except Misfit Slot
  | .null => .ok (address (.plain 0))
  | .pointer a => .ok (address (.plain a))
  | .text s =>
    if !takesText then .error .mismatch
    else if s.toList.contains '\x00' then .error .innerZero
    else .ok (address (.ofBytes (Text.bytes s)))
  | _ => .error .mismatch

/-- The slot for a value under a tag. Nothing goes into `void`. -/
def ofValue (tag : Tag) (v : Value) : Except Misfit Slot :=
  let whole := fun (make : Int → Except Misfit Slot) =>
    match v.wholeNumber? with
    | some n => make n
    | none => .error .mismatch
  let floating := fun (make : Number.Double → Slot) =>
    match v.double? with
    | some x => .ok (make x)
    | none => .error .mismatch
  match tag with
  | .signed w => whole (ofSigned w)
  | .unsigned w => whole (ofUnsigned w)
  | .single => floating fun x => single x.toSingle
  | .double => floating double
  | .bool => whole fun n => if n = 0 ∨ n = 1 then ofUnsigned .w8 n else .error .mismatch
  | .cstring => ofAddress true v
  | .pointer | .function => ofAddress false v
  | .void => .error .mismatch

end Slot

/-! ## What comes back -/

namespace Returned

/-- The integer register. A function that leaves nothing in it leaves it at zero. -/
def word : Returned → BitVec 64
  | register w => w
  | address (.plain a) => a.toBitVec
  | _ => 0

/-- The value under a tag. Only the tag's own bits of a register count, and a text ends before the
first zero behind its address. -/
def value (tag : Tag) (r : Returned) : Value :=
  match tag with
  | .signed w => .int (.ofInt (r.word.setWidth w.bits).toInt)
  | .unsigned w => .uint (.ofNat (r.word.setWidth w.bits).toNat)
  | .bool => .bool ((r.word.setWidth 8).toNat != 0)
  | .single =>
    match r with
    | single w => .float (.ofSingle w)
    | _ => .float (.ofSingle 0)
  | .double =>
    match r with
    | double x => .float x
    | _ => .float ⟨0⟩
  | .cstring =>
    match r with
    | address (.ofBytes content) => .text (Text.decodeLossy (content.takeWhile (· != 0)))
    | _ => .null
  | .pointer | .function =>
    let a := r.word
    if a = 0 then .null else .pointer ⟨a⟩
  | .void => .void

end Returned

/-! ## Calling -/

/-- Why a call does not reach its function. Arguments are counted from zero. -/
inductive CallError where
  | arity (expected found : Nat)
  | mismatch (index : Nat) (expected : Tag) (found : String)
  | innerZero (index : Nat)
deriving DecidableEq, Repr, Inhabited

namespace CallError

/-- The wording of a call error for a function. -/
def message (function : String) : CallError → String
  | arity expected found =>
    "\x60" ++ function ++ "\x60 takes " ++ toString expected ++ " argument(s), got "
      ++ toString found
  | mismatch index expected found =>
    "argument " ++ toString index ++ " of \x60" ++ function ++ "\x60 expects " ++ expected.name
      ++ ", got " ++ found
  | innerZero index =>
    "argument " ++ toString index ++ " of \x60" ++ function ++ "\x60 contains an interior NUL byte"

/-- A misfit at an argument. -/
def ofMisfit (index : Nat) (tag : Tag) (v : Value) : Misfit → CallError
  | .mismatch => mismatch index tag v.kind
  | .innerZero => innerZero index

end CallError

/-- The slots for values under tags, from the argument at `index` on. The first misfit counts. -/
def slotsFrom (index : Nat) : List Tag → List Value → Except CallError (List Slot)
  | tag :: tags, v :: vs =>
    match Slot.ofValue tag v with
    | .error misfit => .error (.ofMisfit index tag v misfit)
    | .ok slot => (slotsFrom (index + 1) tags vs).map (slot :: ·)
  | _, _ => .ok []

/-- The slots for the values of a call. -/
def slots (d : Descriptor) (values : List Value) : Except CallError (List Slot) :=
  if values.length = d.arity then slotsFrom 0 (d.parameters.map SlotType.tag) values
  else .error (.arity d.arity values.length)

/-- Calls a function with values. The function runs in any monad; it runs once if all values fit
their slots, and otherwise not at all. -/
def invoke {m : Type → Type} [Monad m] (d : Descriptor) (function : List Slot → m Returned)
    (values : List Value) : m (Except CallError Value) :=
  match slots d values with
  | .error e => pure (.error e)
  | .ok arguments => do
    let returned ← function arguments
    pure (.ok (returned.value d.result.tag))

end ForeignModule.Native
