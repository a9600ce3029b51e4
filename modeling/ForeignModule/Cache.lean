import ForeignModule.Build.Invocation
import ForeignModule.Cache.Entries
import ForeignModule.Digest.Reading

/-!
# The build cache

A source need not be built again while its content has the digest that was kept for it after its
last build. The cache reads its file when it is first asked, and never again; whatever changes the
entries is written to the file first.

* `Workspace` is the state that builds share: the disk, the cache, and what has been run;
* `shouldSkip` asks the cache, `record` and `forget` change it, `entries` shows it.

A source is digested before the cache is locked; what is done under the lock is one step. Each
operation may be told what trouble its writing meets, when the file is first made (`loading`) and
when it is replaced (`writing`).
-/

namespace ForeignModule

/-- A cache, with its entries as soon as they have been read. -/
structure Cache where
  path : Path
  /-- The number of the running program. -/
  number : Nat := 0
  entries? : Option Entries := none

namespace Cache

/-- A cache of which nothing has been read yet. -/
def ofPath (path : Path) (number : Nat) : Cache := { path, number }

/-- Where the cache is kept. -/
def defaultPath : Path := "./.nativekit/hash.json"

end Cache

/-- What builds share. -/
structure Workspace where
  disk : Disk
  cache : Cache
  /-- The tools that have been run, in order. -/
  ran : List Invocation := []

namespace Workspace

/-- Does something with the disk alone. -/
def onDisk (r : Routine Disk α) : Routine Workspace α :=
  r.within Workspace.disk fun w disk => { w with disk }

end Workspace

namespace Disk

/-- A path from the root as it is spelled, or else below the working directory. Where that is not there
any more the path stays alone. -/
def spelledPath (d : Disk) (source : Path) : Path :=
  if source.isAbsolute then source else (d.workingPath?.map (·.join source)).getD source

/-- The path from the root of a source, without links. One that is not there goes by its spelling. -/
def wholePath (d : Disk) (source : Path) : Path :=
  match d.canonicalize source with
  | .ok path => path
  | .error _ => d.spelledPath source

/-- The text under which a source is kept. Sources whose paths are shown alike are kept under one. -/
def key (d : Disk) (source : Path) : String := (d.wholePath source).shown

end Disk

namespace Cache

open Routine

/-- The entries, from the file if they have not been read yet. A missing file is made, as far as
that is possible; one that cannot be used counts as empty and stays. -/
def loaded (loading : Trouble) : Routine Workspace Entries := do
  match ← ask (·.cache.entries?) with
  | some m => return m
  | none =>
    let cache ← ask (·.cache)
    let m ← match ← ask fun w => Entries.load cache.path w.disk with
      | .ok (some m) => pure m
      | .ok none =>
        let _ ← Workspace.onDisk (Entries.persist ∅ cache.path cache.number loading).run
        pure ∅
      | .error _ => pure ∅
    change fun w => { w with cache := { w.cache with entries? := some m } }
    return m

/-- Writes changed entries to the file, and keeps them if that succeeds. -/
def commit (m : Entries) (writing : Trouble) : Routine Workspace (Except CacheError Unit) := do
  let cache ← ask (·.cache)
  match ← Workspace.onDisk (Entries.persist m cache.path cache.number writing).run with
  | .error e => return .error e
  | .ok () =>
    change fun w => { w with cache := { w.cache with entries? := some m } }
    return .ok ()

/-! ## Under the lock -/

/-- Is this digest kept under a key? -/
def holds (key digest : String) (loading : Trouble) : Routine Workspace Bool := do
  return (← loaded loading)[key]? == some digest

/-- Keeps a digest under a key. -/
def insert (key digest : String) (loading writing : Trouble) :
    Routine Workspace (Except CacheError Unit) := do
  commit ((← loaded loading).insert key digest) writing

/-- Drops what is kept under a key, and says whether that was anything. -/
def erase (key : String) (loading writing : Trouble) :
    Routine Workspace (Except CacheError Bool) := do
  let m ← loaded loading
  if m.contains key then return (← commit (m.erase key) writing).map fun _ => true
  else return .ok false

/-! ## The whole operations -/

/-- Has the source the content that was recorded for it? A source that cannot be read has not. -/
def shouldSkip (source : Path) (loading : Trouble := {}) : Routine Workspace Bool := do
  match ← ask (·.disk.digest source) with
  | .error _ => return false
  | .ok digest =>
    let key ← ask (·.disk.key source)
    atomically (holds key digest loading)

/-- Records the content of a source. -/
def record (source : Path) (loading writing : Trouble := {}) :
    Routine Workspace (Except CacheError Unit) := do
  match ← ask (·.disk.digest source) with
  | .error fault => return .error (.disk source fault)
  | .ok digest =>
    let key ← ask (·.disk.key source)
    atomically (insert key digest loading writing)

/-- Drops what has been recorded for a source, and says whether that was anything. -/
def forget (source : Path) (loading writing : Trouble := {}) :
    Routine Workspace (Except CacheError Bool) := do
  let key ← ask (·.disk.key source)
  atomically (erase key loading writing)

/-- All entries. -/
def entries (loading : Trouble := {}) : Routine Workspace Entries := atomically (loaded loading)

end Cache

end ForeignModule
