import ForeignModule.Abi.TypeMap
import ForeignModule.Native.Call
import ForeignModule.Native.Declaration
import Std.Data.ExtTreeMap

/-!
# Bindings

A binding joins the functions that a source declares to the symbols of a library. A name that is
declared more than once stands for its last declaration.
-/

namespace ForeignModule

open ForeignModule.Abi

/-- The names of functions in the order in which they first appear, each with the shape that was last
declared for it. -/
structure Described where
  order : List String := []
  shapes : Std.ExtTreeMap String Descriptor := ∅

namespace Described

/-- Notes a declaration. A name that is there already keeps its place and takes the new shape. -/
def add (b : Backend) (d : Described) (s : Signature) : Described where
  order := if s.name ∈ d.shapes then d.order else d.order ++ [s.name]
  shapes := d.shapes.insert s.name (Descriptor.ofSignature b s)

/-- The names with their shapes. Each shape is taken out once. -/
def shapesOf (shapes : Std.ExtTreeMap String Descriptor) : List String → List (String × Descriptor)
  | [] => []
  | name :: rest =>
    match shapes[name]? with
    | some d => (name, d) :: shapesOf (shapes.erase name) rest
    | none => shapesOf shapes rest

end Described

/-- The names with the shapes under which they are bound: of a name that is declared more than once,
the last declaration, in the place of the first. -/
def Signature.describe (b : Backend) (signatures : List Signature) : List (String × Descriptor) :=
  let described := signatures.foldl (Described.add b) {}
  Described.shapesOf described.shapes described.order

namespace Native

/-- A function in a library. -/
abbrev Function := List Slot → Returned

/-- A loaded library: what it exports under which names. -/
structure Library where
  symbols : List (String × Function)

namespace Library

/-- The function of a symbol. A zero at the end of a name only ends it; no symbol has a zero
inside its name. -/
def find? (l : Library) (name : String) : Option Function :=
  let characters := name.toList
  let plain := if characters.getLast? = some '\x00' then characters.dropLast else characters
  l.symbols.lookup (.ofList plain)

end Library

/-- Why a file makes no library. -/
inductive LibraryFault where
  | missing
  | directory
  | tooShort
  | invalidHeader
deriving DecidableEq, Repr, Inhabited

namespace LibraryFault

/-- The number of bytes that the head of a library takes up. -/
def headSize : Nat := 64

/-- The fault of a file with a content that makes no library. -/
def ofContent (content : List UInt8) : LibraryFault :=
  if (content.take headSize).length < headSize then tooShort else invalidHeader

/-- The wording of the fault. -/
def message : LibraryFault → String
  | missing => "cannot open shared object file: No such file or directory"
  | directory => "cannot read file data: Is a directory"
  | tooShort => "file too short"
  | invalidHeader => "invalid ELF header"

end LibraryFault

/-- A function that is ready to be called. -/
structure BoundFunction where
  name : String
  descriptor : Descriptor
  run : Function

/-- Calls a bound function. -/
def BoundFunction.call (f : BoundFunction) (values : List Value) : Except CallError Value :=
  Id.run (invoke f.descriptor (fun slots => pure (f.run slots)) values)

/-- The functions of a module, with the text that declares them. -/
structure Binding where
  module : String
  artifact : Path
  functions : List BoundFunction
  declarations : String

namespace Binding

/-- The function of a name. -/
def function? (m : Binding) (name : String) : Option BoundFunction :=
  m.functions.find? (·.name == name)

/-- The names of the functions, in order. -/
def names (m : Binding) : List String :=
  (m.functions.map BoundFunction.name).mergeSort fun a b => a ≤ b

end Binding

/-- The place of a type in a signature. -/
inductive Place where
  | result
  | parameter (name : String)
deriving DecidableEq, Repr, Inhabited

/-- The wording of a place. -/
def Place.text : Place → String
  | result => "return type"
  | parameter name => "argument \x60" ++ name ++ "\x60"

/-- Why a module cannot be bound. -/
inductive BindError where
  | notLoaded (fault : LibraryFault)
  | missingSymbol (symbol : String)
  | unmappedType (function : String) (place : Place) (type : String)
deriving DecidableEq, Repr, Inhabited

/-- The wording of a bind error for an artifact. -/
def BindError.message (artifact : Path) : BindError → String
  | notLoaded _ => "failed to load native module " ++ artifact.shown
  | missingSymbol symbol => "symbol \x60" ++ symbol ++ "\x60 not found in " ++ artifact.shown
  | unmappedType function place type =>
    "\x60" ++ function ++ "\x60 has an unmapped type \x60" ++ type ++ "\x60 in " ++ place.text

/-- The refusal of the parameter at an index if its type is in no table. The parameter is named as
in a declaration of the function. -/
def unmappedParameter? (name : String) (declaration? : Option Signature) :
    SlotType × Nat → Option BindError
  | (.unmapped text, index) =>
    let parameter? := declaration?.bind fun s => s.parameters[index]?
    let parameter := (parameter?.map Parameter.name).getD "?"
    some (.unmappedType name (.parameter parameter) text)
  | (.known _, _) => none

/-- The refusal of the first type of a function that is in no table. The result comes before the
parameters. -/
def unmapped? (name : String) (d : Descriptor) (declaration? : Option Signature) :
    Option BindError :=
  match d.result with
  | .unmapped text => some (.unmappedType name .result text)
  | .known _ => d.parameters.zipIdx.findSome? (unmappedParameter? name declaration?)

/-- The refusal of the first function with a type that is in no table. Parameters are named as in the
last declaration of their function. -/
def firstUnmapped? (signatures : List Signature) (described : List (String × Descriptor)) :
    Option BindError :=
  described.findSome? fun (name, d) =>
    unmapped? name d (signatures.reverse.find? (·.name == name))

/-- The described functions in a library, or the first name that is not in it. -/
def resolve (library : Library) :
    List (String × Descriptor) → Except BindError (List BoundFunction)
  | [] => .ok []
  | (name, descriptor) :: rest =>
    match library.find? name with
    | none => .error (.missingSymbol name)
    | some run => (resolve library rest).map ({ name, descriptor, run } :: ·)

/-- Binds a module. With `strict` a type that is in no table is refused before anything is loaded;
then the library has to load, and then each symbol has to be in it. -/
def bind (b : Backend) (module : String) (artifact : Path) (signatures : List Signature)
    (strict : Bool) (library : Except LibraryFault Library) : Except BindError Binding :=
  let described := Signature.describe b signatures
  match if strict then firstUnmapped? signatures described else none with
  | some error => .error error
  | none =>
    match library with
    | .error fault => .error (.notLoaded fault)
    | .ok library =>
      (resolve library described).map fun functions =>
        { module, artifact, functions, declarations := Declaration.module b module signatures }

end Native

end ForeignModule
