/-!
# What crosses the call boundary

A tag says how a value is passed: as an integer of some width, a floating-point number, a truth
value, a pointer of some kind, or not at all. A function's descriptor gives each of its slots a
tag, or the text of a type that no table knows.
-/

namespace ForeignModule.Abi

/-- The width of an integer. -/
inductive Width where
  | w8
  | w16
  | w32
  | w64
deriving DecidableEq, Repr, Inhabited

namespace Width

/-- The number of bits. -/
def bits : Width → Nat
  | w8 => 8
  | w16 => 16
  | w32 => 32
  | w64 => 64

/-- The number of bits, written out. -/
def name : Width → String
  | w8 => "8"
  | w16 => "16"
  | w32 => "32"
  | w64 => "64"

end Width

/-- How a value is passed. -/
inductive Tag where
  | signed (width : Width)
  | unsigned (width : Width)
  | single
  | double
  | bool
  /-- A pointer to bytes that end with a zero. -/
  | cstring
  | pointer
  | function
  | void
deriving DecidableEq, Repr, Inhabited

namespace Tag

/-- All tags, in the order in which they are listed. -/
def all : List Tag :=
  [signed .w8, unsigned .w8, signed .w16, unsigned .w16, signed .w32, unsigned .w32,
    signed .w64, unsigned .w64, single, double, bool, cstring, pointer, function, void]

/-- The name of a tag. -/
def name : Tag → String
  | signed w => "i" ++ w.name
  | unsigned w => "u" ++ w.name
  | single => "f32"
  | double => "f64"
  | bool => "bool"
  | cstring => "cstring"
  | pointer => "ptr"
  | function => "function"
  | void => "void"

/-- Is a value with this tag an address? -/
def isAddress : Tag → Bool
  | cstring | pointer | function => true
  | _ => false

end Tag

/-- What the tables say about the text of a type. -/
inductive SlotType where
  | known (tag : Tag)
  /-- No table knows the text, which is kept without blanks around it. -/
  | unmapped (text : String)
deriving DecidableEq, Repr, Inhabited

namespace SlotType

/-- The tag with which a slot is bound. An unmapped type binds as `void`. -/
def tag : SlotType → Tag
  | known t => t
  | unmapped _ => .void

/-- Is the type in no table? -/
def isUnmapped : SlotType → Bool
  | known _ => false
  | unmapped _ => true

/-- A slot type as text. -/
def text : SlotType → String
  | known t => t.name
  | unmapped s => "unknown(" ++ s ++ ")"

end SlotType

/-- The shape of a function at the call boundary. -/
structure Descriptor where
  parameters : List SlotType
  result : SlotType
deriving DecidableEq, Repr, Inhabited

namespace Descriptor

/-- The number of parameters. -/
def arity (d : Descriptor) : Nat := d.parameters.length

/-- Is some type in no table? -/
def hasUnmapped (d : Descriptor) : Bool :=
  d.result.isUnmapped || d.parameters.any SlotType.isUnmapped

/-- A descriptor as text. -/
def text (d : Descriptor) : String :=
  "(" ++ ", ".intercalate (d.parameters.map SlotType.text) ++ ") -> " ++ d.result.text

end Descriptor

end ForeignModule.Abi
