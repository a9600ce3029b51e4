import ForeignModule.Abi.CType
import ForeignModule.Abi.KotlinType
import ForeignModule.Abi.RustType
import ForeignModule.Backend
import ForeignModule.Signature

/-!
# From the text of a type to its meaning

Two readings of the same text: how a value of the type is passed, and what a declaration shows of
it. The second is coarse and goes by the words that occur in the text.
-/

namespace ForeignModule.Abi

/-- How a value is passed whose type has this text. This never fails. -/
def SlotType.ofText (b : Backend) (text : String) : SlotType :=
  let tag? := match b with
    | .clang => CType.tag? text
    | .konan => KotlinType.tag? text
    | .rust => RustType.tag? text
  match tag? with
  | some tag => .known tag
  | none => .unmapped (.ofList (Text.trim text.toList))

/-- The shape of the function that a signature declares. -/
def Descriptor.ofSignature (b : Backend) (s : Signature) : Descriptor :=
  { parameters := s.parameters.map fun p => SlotType.ofText b p.type
    result := SlotType.ofText b s.result }

/-- What a declaration shows of a type. -/
inductive Presentation where
  /-- The bytes of a text that goes in. -/
  | buffer
  /-- A text that comes out. -/
  | text
  | number
  | unknown
deriving DecidableEq, Repr, Inhabited

namespace Presentation

/-- The name of a presentation. -/
def name : Presentation → String
  | buffer => "Buffer"
  | text => "string"
  | number => "number"
  | unknown => "unknown"

/-- Words whose occurrence makes a type a text. -/
def textWords : Backend → List String
  | .clang => ["char"]
  | .konan => ["String"]
  | .rust => ["CStr", "c_char"]

/-- Words whose occurrence makes a type a number. -/
def numberWords : Backend → List String
  | .clang => ["int", "long", "short", "double", "float", "size_t"]
  | .konan => ["Int", "Long", "Short", "Byte", "Float", "Double"]
  | .rust =>
    ["i8", "u8", "i16", "u16", "i32", "u32", "i64", "u64", "f32", "f64", "usize", "isize",
      "float", "double", "c_int", "c_uint", "c_long", "c_ulong", "c_short", "c_ushort",
      "c_float", "c_double"]

/-- What is shown of a type by the words in it, where `shown` is how a text is shown. -/
def ofWords (shown : Presentation) (b : Backend) (type : String) : Presentation :=
  if (textWords b).any (Text.contains type) then shown
  else if (numberWords b).any (Text.contains type) then number
  else unknown

/-- What is shown of a parameter's type. -/
def ofParameter (b : Backend) (type : String) : Presentation := ofWords buffer b type

/-- What is shown of a result's type. -/
def ofResult (b : Backend) (type : String) : Presentation := ofWords text b type

end Presentation

end ForeignModule.Abi
