import ForeignModule.Backend
import ForeignModule.Configuration.Settings
import Std.Data.ExtTreeMap

/-!
# Configurations

A configuration has a section for every backend. A section has settings for all files, and settings
for single files, which are laid over them.

* `Section.resolve` gives the settings of one file;
* `Configuration.resolve` does so for the section of a backend.
-/

namespace ForeignModule

/-- The settings of one backend, with those for single files by file name. -/
structure Section (α : Type) where
  shared : Option α := none
  files : Std.ExtTreeMap String α := ∅

namespace Section

variable {α : Type} [Settings α]

/-- Clears in the shared settings what makes sense for a single file only. -/
def sanitize (s : Section α) : Section α :=
  { s with shared := s.shared.map Settings.withoutFileOnly }

/-- The settings of the file with a name. -/
def resolve (s : Section α) (file : String) : α :=
  let base := Settings.withoutFileOnly (s.shared.getD Settings.unset)
  match s.files[file]? with
  | some own => Settings.merge base own
  | none => base

/-- Does the section say nothing? -/
def isEmpty (s : Section α) : Bool := s.shared.isNone && s.files.isEmpty

end Section

/-- The settings for the sources of all backends. -/
structure Configuration where
  clang : Section ClangSettings := {}
  konan : Section KonanSettings := {}
  rust : Section RustSettings := {}

/-- The settings of one source file. -/
inductive ModuleSettings where
  | clang (s : ClangSettings)
  | konan (s : KonanSettings)
  | rust (s : RustSettings)
deriving DecidableEq, Repr, Inhabited

namespace ModuleSettings

/-- The backend that the settings are for. -/
def backend : ModuleSettings → Backend
  | clang _ => .clang
  | konan _ => .konan
  | rust _ => .rust

/-- How long a step of a build may take when nothing is set, in seconds. -/
def defaultTimeout : Nat := 600

/-- How long a step of the build may take, in seconds. -/
def timeout (s : ModuleSettings) : Nat :=
  let given := match s with
    | clang s => s.timeoutSeconds
    | konan s => s.timeoutSeconds
    | rust s => s.timeoutSeconds
  (given.map UInt64.toNat).getD defaultTimeout

/-- The file that declares the exports of a source: a header beside it, or the source itself. -/
def signatureSource (s : ModuleSettings) (source : Path) : Path :=
  match s with
  | clang { useHeader := some header, .. } => (source.parent?.getD Path.here).join header
  | _ => source

end ModuleSettings

namespace Configuration

/-- Clears in all shared settings what makes sense for a single file only. -/
def sanitize (c : Configuration) : Configuration :=
  { clang := c.clang.sanitize, konan := c.konan.sanitize, rust := c.rust.sanitize }

/-- The settings of the file with a name, under a backend. -/
def resolve (c : Configuration) (b : Backend) (file : String) : ModuleSettings :=
  match b with
  | .clang => .clang (c.clang.resolve file)
  | .konan => .konan (c.konan.resolve file)
  | .rust => .rust (c.rust.resolve file)

/-- Does the configuration say nothing? -/
def isEmpty (c : Configuration) : Bool :=
  c.clang.isEmpty && c.konan.isEmpty && c.rust.isEmpty

end Configuration

end ForeignModule
