import ForeignModule.Files.Path

/-!
# Backends

The three toolchains that turn a source file into a native module.
-/

namespace ForeignModule

/-- A toolchain, named for its compiler. -/
inductive Backend where
  /-- C, C++ and Objective-C. -/
  | clang
  /-- Kotlin/Native. -/
  | konan
  | rust
deriving DecidableEq, Repr, Inhabited

namespace Backend

/-- All backends, in the order in which they are listed. -/
def all : List Backend := [clang, konan, rust]

/-- The name under which a backend is configured and shown. -/
def name : Backend → String
  | clang => "clang"
  | konan => "konan"
  | rust => "rust"

/-- The file extensions of a backend's sources. Case matters. -/
def extensions : Backend → List String
  | clang => ["c", "cpp", "cxx", "cc", "C", "m", "mm"]
  | konan => ["kt"]
  | rust => ["rs"]

/-- The backend of a file extension. -/
def ofExtension? (extension : String) : Option Backend :=
  all.find? fun b => b.extensions.contains extension

/-- The backend of a source file. -/
def ofPath? (path : Path) : Option Backend := do ofExtension? (← (← path.extension?).text?)

/-- The backend of a name. -/
def ofName? (name : String) : Option Backend := all.find? fun b => b.name == name

end Backend

end ForeignModule
