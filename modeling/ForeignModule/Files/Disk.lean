import ForeignModule.Files.Path
import Std.Data.ExtTreeMap

/-!
# A disk

A tree of directories, files and symbolic links, with a working directory.

* `find` follows a path through the tree to what it leads to, and `spot` to the place that it names,
  where a link stands for itself;
* `read`, `canonicalize`, `list` ask about what is found. What changes a disk is in
  `ForeignModule.Files.Change`.
-/

namespace ForeignModule

/-- A place in the tree: the names on the way from the root, each behind a slash. Nothing at all is the
root. -/
abbrev Location := RawText

namespace Location

/-- The root of the tree. -/
def root : Location := []

/-- The place that a name has in a directory. -/
def child (l : Location) (name : RawText) : Location := l ++ Path.slash :: name

/-- The directory in which a place lies. The root lies in itself. -/
def parent (l : Location) : Location :=
  ((l.reverse.dropWhile (· ≠ Path.slash)).drop 1).reverse

/-- The last name on the way to a place. -/
def name (l : Location) : RawText := (l.reverse.takeWhile (· ≠ Path.slash)).reverse

/-- Does a place lie below a directory? -/
def isBelow (l directory : Location) : Bool := (directory ++ [Path.slash]).isPrefixOf l

/-- The path of a place. -/
def path (l : Location) : Path := if l.isEmpty then [Path.slash] else l

end Location

/-- What is at a place in the tree. -/
inductive Node where
  | directory
  | file (content : List UInt8)
  | link (target : Path)
deriving DecidableEq, Repr, Inhabited

/-- Why an operation on a path fails. -/
inductive Fault where
  | notFound
  | alreadyExists
  | notDirectory
  | isDirectory
  | tooManyLinks
  | nameTooLong
  | busy
  | notText
  | zeroInName
deriving DecidableEq, Repr, Inhabited

namespace Fault

/-- The wording of a fault. -/
def message : Fault → String
  | notFound => "No such file or directory (os error 2)"
  | alreadyExists => "File exists (os error 17)"
  | notDirectory => "Not a directory (os error 20)"
  | isDirectory => "Is a directory (os error 21)"
  | tooManyLinks => "Too many levels of symbolic links (os error 40)"
  | nameTooLong => "File name too long (os error 36)"
  | busy => "Device or resource busy (os error 16)"
  | notText => "stream did not contain valid UTF-8"
  | zeroInName => "file name contained an unexpected NUL byte"

end Fault

/-- A tree of files. The root is always a directory and has no entry. -/
structure Disk where
  nodes : Std.ExtTreeMap Location Node
  workingDirectory : Location

namespace Disk

/-- What is at a place. -/
def node? (d : Disk) (at' : Location) : Option Node :=
  if at' = Location.root then some .directory else d.nodes[at']?

/-- Where a path leads. -/
inductive Found where
  | present (location : Location) (node : Node)
  /-- Only the last name is missing, in a directory that is there. `slash` says whether a slash
  stands behind that name. -/
  | absent (parent : Location) (name : RawText) (slash : Bool)
deriving DecidableEq, Repr, Inhabited

/-- Where a path or a link target starts. -/
def start (path : Path) (from' : Location) : Location :=
  if path.isAbsolute then Location.root else from'

/-- The number of bytes that a name may have. -/
def nameLimit : Nat := 255

/-- The number of bytes that a path may not reach. -/
def pathLimit : Nat := 4096

/-- The number of symbolic links that a path may lead through. -/
def linkLimit : Nat := 40

/-- Follows names from a place on where a node lies. `link` says what becomes of a symbolic link,
given the place that it lies in, its target and the names behind it. -/
def walkNames (d : Disk) (link : Location → Path → List RawText → Except Fault Found)
    (at' : Location) (node : Node) : List RawText → Except Fault Found
  | [] => .ok (.present at' node)
  | name :: rest =>
    if node ≠ .directory then .error .notDirectory
    else if name = [] ∨ name = Path.here then d.walkNames link at' .directory rest
    else if name = Path.up then d.walkNames link at'.parent .directory rest
    else if nameLimit < name.length then .error .nameTooLong
    else
      match d.nodes[at'.child name]? with
      | none =>
        if rest.all List.isEmpty then .ok (.absent at' name !rest.isEmpty) else .error .notFound
      | some (.link target) => link at' target rest
      | some node => d.walkNames link (at'.child name) node rest

/-- Follows names from a directory on, through as many symbolic links as are given at most. -/
def walk (d : Disk) : Nat → Location → List RawText → Except Fault Found
  | 0, at' => d.walkNames (fun _ _ _ => .error .tooManyLinks) at' .directory
  | links + 1, at' =>
    d.walkNames (fun at' target rest =>
      if target.isEmpty then .error .notFound
      else d.walk links (start target at') (target.names ++ rest)) at' .directory

/-- Follows the names of a path, or the first of them. -/
def follow (d : Disk) (path : Path) (names : List RawText) : Except Fault Found :=
  let at' := start path d.workingDirectory
  if d.node? at' = some .directory then d.walk linkLimit at' names else .error .notFound

/-- The fault of a path that is none at all. -/
def malformed? (path : Path) : Option Fault :=
  if path.contains 0 then some .zeroInName
  else if path.isEmpty then some .notFound
  else none

/-- The fault of a path that cannot be handed over in one piece. -/
def unfit? (path : Path) : Option Fault :=
  match malformed? path with
  | some fault => some fault
  | none => if pathLimit ≤ path.length then some .nameTooLong else none

/-- Where a path of any length leads. -/
def trace (d : Disk) (path : Path) : Except Fault Found :=
  match malformed? path with
  | some fault => .error fault
  | none => d.follow path path.names

/-- Where a path leads. -/
def find (d : Disk) (path : Path) : Except Fault Found :=
  match unfit? path with
  | some fault => .error fault
  | none => d.trace path

/-- The place that a path names. -/
structure Spot where
  parent : Location
  name : RawText
  /-- Does a slash stand behind the name? -/
  slash : Bool
deriving DecidableEq, Repr, Inhabited

namespace Spot

/-- The place itself. -/
def location (s : Spot) : Location := s.parent.child s.name

/-- What lies there: a link is not followed. -/
def node? (s : Spot) (d : Disk) : Option Node := d.nodes[s.location]?

end Spot

/-- The place that a path names in a directory that is there. The root, `.` and `..` are no names
in a directory. -/
def spot (d : Disk) (path : Path) : Except Fault (Option Spot) := do
  if let some fault := unfit? path then throw fault
  let reversed := path.names.reverse
  let last := reversed.dropWhile List.isEmpty
  match ← d.follow path last.tail.reverse with
  | .absent _ _ _ => throw .notFound
  | .present parent node =>
    if node ≠ .directory then throw .notDirectory
    match last.head? with
    | none => return none
    | some name =>
      if name = Path.here ∨ name = Path.up then return none
      if nameLimit < name.length then throw .nameTooLong
      return some { parent, name, slash := last.length < reversed.length }

/-! ## Asking -/

/-- What is at the end of a path, if anything is. -/
def stat? (d : Disk) (path : Path) : Option Node :=
  match d.find path with
  | .ok (.present _ node) => some node
  | _ => none

/-- Is there anything at the end of a path? -/
def exists? (d : Disk) (path : Path) : Bool := (d.stat? path).isSome

/-- Is there a file at the end of a path? -/
def isFile (d : Disk) (path : Path) : Bool :=
  match d.stat? path with
  | some (.file _) => true
  | _ => false

/-- Is there a directory at the end of a path? -/
def isDirectory (d : Disk) (path : Path) : Bool := d.stat? path == some .directory

/-- The content of a file. -/
def read (d : Disk) (path : Path) : Except Fault (List UInt8) :=
  match d.find path with
  | .ok (.present _ (.file content)) => .ok content
  | .ok (.present _ _) => .error .isDirectory
  | .ok (.absent _ _ _) => .error .notFound
  | .error fault => .error fault

/-- The path from the root of what a path leads to. It is found name by name, so that the path may
be of any length. -/
def canonicalize (d : Disk) (path : Path) : Except Fault Path :=
  match d.trace path with
  | .ok (.present location _) => .ok location.path
  | .ok (.absent _ _ _) => .error .notFound
  | .error fault => .error fault

/-- The path of the working directory, as long as that is there. -/
def workingPath? (d : Disk) : Option Path :=
  if d.node? d.workingDirectory = some .directory then some d.workingDirectory.path else none

/-- The names in a directory, in order. -/
def list (d : Disk) (path : Path) : List RawText :=
  match d.find path with
  | .ok (.present location .directory) =>
    (d.nodes.keys.filter fun key => key.parent = location).map Location.name
  | _ => []

/-- Puts something at a place. -/
def put (d : Disk) (at' : Location) (node : Node) : Disk :=
  { d with nodes := d.nodes.insert at' node }

/-- Takes away what is at a place. -/
def drop (d : Disk) (at' : Location) : Disk := { d with nodes := d.nodes.erase at' }

/-- The disk on which one more directory lies in the working directory, and is the new one. -/
def enter (d : Disk) (name : RawText) : Disk :=
  let inner := d.workingDirectory.child name
  { d.put inner .directory with workingDirectory := inner }

/-- A tree that holds nothing but a working directory, with these names on the way to it. -/
def empty (names : List RawText) : Disk :=
  names.foldl enter { nodes := ∅, workingDirectory := Location.root }

end Disk

end ForeignModule
