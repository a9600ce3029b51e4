import ForeignModule.Files.Change
import ForeignModule.Json.TextMap
import ForeignModule.Routine
import ForeignModule.Text.Utf8
import Std.Data.ExtTreeMap

/-!
# The entries of the cache

The digests of sources by their paths, and the file that keeps them. The file is replaced as a
whole: the new content goes to a temporary file, which is then moved into place, so that nobody
sees half of it.

* `Entries.text` and `Entries.ofText?` are the format of the file;
* `Entries.load` reads a file, `Entries.persist` replaces it.
-/

namespace ForeignModule

/-- The digests of sources by the paths under which they are kept. -/
abbrev Entries := Std.ExtTreeMap String String

/-- Why the file of a cache cannot be used. -/
inductive CacheError where
  | disk (path : Path) (fault : Fault)
  /-- Its content is no map of texts. -/
  | invalid (path : Path)
deriving DecidableEq, Repr, Inhabited

namespace CacheError

/-- The wording of the error. -/
def message : CacheError → String
  | disk path _ => "cache I/O failed for " ++ path.shown
  | invalid path => "cache file " ++ path.shown ++ " is not a valid digest map"

end CacheError

/-- What goes wrong on its own account while a file is replaced. -/
structure Trouble where
  directory : Option Fault := none
  create : Option Fault := none
  /-- So many bytes are written before it goes wrong. -/
  write : Option (Nat × Fault) := none
  sync : Option Fault := none
  rename : Option Fault := none
deriving DecidableEq, Repr, Inhabited

namespace Trouble

/-- A step that goes wrong without having done anything. -/
def instead (fault : Option Fault) (step : Disk → Except Fault Disk) (d : Disk) :
    Except Fault Disk :=
  match fault with
  | some fault => .error fault
  | none => step d

end Trouble

namespace Entries

/-- The content of the file for these entries. -/
def text (m : Entries) : String := .ofList (Json.render m.toList)

/-- The entries in a file. Of two values for one key the later one counts. -/
def ofText? (text : String) : Option Entries :=
  (Json.pairs? text.toList).map fun pairs => pairs.foldl (fun m (k, v) => m.insert k v) ∅

/-- The entries in a file, or none if there is no file. -/
def load (path : Path) (d : Disk) : Except CacheError (Option Entries) :=
  match d.read path with
  | .error .notFound => .ok none
  | .error fault => .error (.disk path fault)
  | .ok content =>
    match (Text.decode? content).bind ofText? with
    | some m => .ok (some m)
    | none => .error (.invalid path)

/-- The file that the new content goes to first. Every running program has a number of its own, so
that no two of them use the same file. -/
def temporaryPath (path : Path) (number : Nat) : Path :=
  Path.withFileName path
    (path.fileName?.getD "hash.json" ++ ("." ++ toString number ++ ".tmp"))

/-- One step on a disk, with the path to blame for its faults. -/
def step (path : Path) (f : Disk → Except Fault Disk) : ExceptT CacheError (Routine Disk) Unit :=
  .mk (Routine.attempt fun d => (f d).mapError (CacheError.disk path))

/-- Makes the directory of a path, if the path names one. -/
def makeDirectory (path : Path) (trouble : Option Fault) :
    ExceptT CacheError (Routine Disk) Unit := do
  if let some directory := path.directory? then
    match trouble with
    | some fault => throw (.disk directory fault)
    | none => .mk (Routine.act fun d =>
        (d.makeDirectories directory).map (·.mapError (CacheError.disk directory)) id)

/-- Writes bytes to a file; what has been written before trouble comes stays. -/
def writeContent (path : Path) (content : List UInt8) (trouble : Option (Nat × Fault)) :
    ExceptT CacheError (Routine Disk) Unit := do
  match trouble with
  | none => step path (·.write path content)
  | some (count, fault) =>
    step path (·.write path (content.take count))
    throw (.disk path fault)

/-- Moves a file into place. If that fails the file is removed. -/
def moveInto (temporary path : Path) (trouble : Option Fault) :
    ExceptT CacheError (Routine Disk) Unit := do
  try step path (Trouble.instead trouble (·.rename temporary path))
  catch e =>
    let _ ← (Routine.attempt (·.removeFile temporary) : Routine Disk (Except Fault Unit))
    throw e

/-- Replaces a file by one with these entries. -/
def persist (m : Entries) (path : Path) (number : Nat) (t : Trouble := {}) :
    ExceptT CacheError (Routine Disk) Unit := do
  makeDirectory path t.directory
  let temporary := temporaryPath path number
  step temporary (Trouble.instead t.create (·.write temporary []))
  writeContent temporary (Text.bytes m.text) t.write
  step temporary (Trouble.instead t.sync .ok)
  moveInto temporary path t.rename

end Entries

end ForeignModule
