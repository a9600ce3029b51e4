import ForeignModule.Files.Disk
import ForeignModule.Signature.Extraction
import ForeignModule.Text.Utf8

/-!
# Signatures of a source file

A file that is missing is told apart from one that cannot be read as a text.
-/

namespace ForeignModule

/-- Why a file has no list of signatures. -/
inductive SourceError where
  | missing (path : Path)
  | violation (v : Violation)
  | disk (path : Path) (fault : Fault)
deriving DecidableEq, Repr, Inhabited

namespace SourceError

/-- The wording of the error. -/
def message : SourceError → String
  | missing path => "could not find source file " ++ path.shown
  | violation v => v.message
  | disk path _ => "failed to read " ++ path.shown

/-- The fault behind the error. -/
def fault? : SourceError → Option Fault
  | disk _ fault => some fault
  | _ => none

end SourceError

namespace Disk

/-- The text in a file. -/
def readText (d : Disk) (path : Path) : Except Fault String :=
  match d.read path with
  | .error fault => .error fault
  | .ok content =>
    match Text.decode? content with
    | some text => .ok text
    | none => .error .notText

end Disk

namespace Signature

/-- The functions that a file exports under a backend's grammar. -/
def ofFile (b : Backend) (path : Path) (d : Disk) : Except SourceError (List Signature) :=
  match d.readText path with
  | .error .notFound => .error (.missing path)
  | .error fault => .error (.disk path fault)
  | .ok text => (ofSource b text).mapError .violation

end Signature

end ForeignModule
