import ForeignModule.Abi.TypeMap
import ForeignModule.Files.Path

/-!
# Texts that go with a module

* `Declaration.module` declares the functions of a module for those who call them from a script;
* `Forwarding.source` is the C++ source that gives the functions of a Kotlin library plain names.

Both list every signature they are given, in order.
-/

namespace ForeignModule

open ForeignModule.Abi

namespace Declaration

/-- The line that declares a function. -/
def line (b : Backend) (s : Signature) : String :=
  let parameters := s.parameters.map fun p =>
    p.name ++ ": " ++ (Presentation.ofParameter b p.type).name
  " export function " ++ s.name ++ "(" ++ ", ".intercalate parameters ++ "): "
    ++ (Presentation.ofResult b s.result).name ++ ";"

/-- The text that declares a module. -/
def module (b : Backend) (name : String) (signatures : List Signature) : String :=
  "declare module \"*/" ++ name ++ "\" \x7b\n" ++ "\n".intercalate (signatures.map (line b))
    ++ "\n\x7d\n\n"

/-- The name of the file with the declarations of a module. -/
def fileName (name : String) : String :=
  .ofList (name.toList.map fun c => if c = '.' then '_' else c) ++ ".d.ts"

/-- The path of that file: beside the artifact. -/
def path (artifact : Path) (name : String) : Path :=
  (artifact.parent?.getD Path.here).join (fileName name)

end Declaration

namespace Forwarding

/-- The line that defines a forwarding function. `library` is the name by which the library calls
its table of symbols. -/
def line (library : String) (s : Signature) : String :=
  let parameters := s.parameters.map fun p => KotlinType.cType p.type ++ " " ++ p.name
  let arguments := s.parameters.map Parameter.name
  KotlinType.cType s.result ++ " " ++ s.name ++ "(" ++ ", ".intercalate parameters
    ++ ") \x7b return " ++ library ++ "_symbols()->kotlin.root." ++ s.name ++ "("
    ++ ", ".intercalate arguments ++ "); \x7d\n"

/-- The source of the forwarding functions. -/
def source (header : String) (library : String) (signatures : List Signature) : String :=
  "#include \"" ++ header ++ "\"\nextern \"C\" \x7b\n"
    ++ String.join (signatures.map (line library)) ++ "\x7d\n"

end Forwarding

end ForeignModule
