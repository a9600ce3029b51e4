import ForeignModule.Files.Disk

/-!
# Changing a disk

Every operation is a function from disks to disks, and one that fails leaves the disk as it was. The
two that make several directories in a row also give the disk when they fail: what they have made by
then stays.
-/

namespace ForeignModule

namespace Disk

/-- Writes a file, new or in place of its old content. -/
def write (d : Disk) (path : Path) (content : List UInt8) : Except Fault Disk :=
  match d.find path with
  | .ok (.present location (.file _)) => .ok (d.put location (.file content))
  | .ok (.present _ _) => .error .isDirectory
  | .ok (.absent parent name slash) =>
    if slash then .error .isDirectory else .ok (d.put (parent.child name) (.file content))
  | .error fault => .error fault

/-- The place that a path names, if nothing lies there yet. -/
def vacant (d : Disk) (path : Path) : Except Fault Spot := do
  match ← d.spot path with
  | none => throw .alreadyExists
  | some s => if (s.node? d).isSome then throw .alreadyExists else return s

/-- Makes one directory. -/
def makeDirectory (d : Disk) (path : Path) : Except Fault Disk := do
  return d.put (← d.vacant path).location .directory

/-- Makes one directory, unless it is there already. -/
def ensureDirectory (d : Disk) (path : Path) : Except Fault Unit × Disk :=
  match d.makeDirectory path with
  | .ok made => (.ok (), made)
  | .error fault =>
    (if fault = .alreadyExists ∧ d.isDirectory path then .ok () else .error fault, d)

/-- Makes the first of these directories, where each lies in the next. The last of them is the root
or the empty path, and needs no making. -/
def makeFirst (d : Disk) : List Path → Except Fault Unit × Disk
  | [] | [_] => (.ok (), d)
  | path :: above =>
    match d.ensureDirectory path with
    | (.error .notFound, _) =>
      match d.makeFirst above with
      | (.ok (), ready) => ready.ensureDirectory path
      | failed => failed
    | made => made

/-- Makes a directory and all that are missing above it. -/
def makeDirectories (d : Disk) (path : Path) : Except Fault Unit × Disk :=
  d.makeFirst (path :: path.parents)

/-- Makes the directories above a path, if it names any, and writes a file there. -/
def writeBelow (d : Disk) (path : Path) (content : List UInt8) : Except Fault Unit × Disk :=
  match path.directory?.elim (.ok (), d) d.makeDirectories with
  | (.ok (), ready) =>
    match ready.write path content with
    | .ok written => (.ok (), written)
    | .error fault => (.error fault, ready)
  | failed => failed

/-- Makes a symbolic link. -/
def makeLink (d : Disk) (path target : Path) : Except Fault Disk := do
  if let some fault := unfit? target then throw fault
  let s ← d.vacant path
  if s.slash then throw .notFound
  return d.put s.location (.link target)

/-- Moves a file or a link to another path, in place of what is there. -/
def rename (d : Disk) (source target : Path) : Except Fault Disk := do
  match ← d.spot source, ← d.spot target with
  | some s, some t =>
    match s.node? d with
    | none => throw .notFound
    | some node =>
      if s.slash || t.slash then throw .notDirectory
      if node = .directory ∨ t.node? d = some .directory then throw .isDirectory
      return (d.drop s.location).put t.location node
  | _, _ => throw .busy

/-- Removes a file or a link. -/
def removeFile (d : Disk) (path : Path) : Except Fault Disk := do
  match ← d.spot path with
  | none => throw .isDirectory
  | some s =>
    match s.node? d with
    | none => throw .notFound
    | some .directory => throw .isDirectory
    | some _ => if s.slash then throw .notDirectory else return d.drop s.location

/-- Removes a file, a link, or a directory with all that is in it. -/
def removeTree (d : Disk) (path : Path) : Except Fault Disk := do
  match ← d.spot path with
  | none => throw .busy
  | some s =>
    if (s.node? d).isNone then throw .notFound
    let d := d.drop s.location
    return { d with nodes := d.nodes.filter fun key _ => !key.isBelow s.location }

end Disk

end ForeignModule
