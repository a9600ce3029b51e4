import ForeignModule.Text.Raw

/-!
# Paths

A path is a raw text; its names are set apart by slashes. Empty names and the name `.` behind others
say nothing, but they stay in the path: nothing is normalised except where a parent is cut off.
-/

namespace ForeignModule

/-- A path, as it is spelled. -/
abbrev Path := RawText

namespace Path

/-- What sets the names in a path apart. -/
def slash : UInt8 := 0x2f

/-- What sets the extension of a name apart. -/
def point : UInt8 := 0x2e

/-- The name of a directory in itself. -/
def here : RawText := [point]

/-- The name of the directory above in a directory. -/
def up : RawText := [point, point]

/-- The names in a path, with the empty ones. There is always at least one. A path from the root starts
with an empty name. -/
def names : Path → List RawText
  | [] => [[]]
  | b :: rest =>
    if b = slash then [] :: names rest
    else
      match names rest with
      | [] => [[b]]
      | name :: more => (b :: name) :: more

/-- Does the path start at the root? -/
def isAbsolute (p : Path) : Bool := p.head? == some slash

/-- Does a name behind others say nothing? -/
def isFiller (name : RawText) : Bool := name.isEmpty || name == here

/-- Names, last one first, without those at the end that say nothing. The first name of a path is
never dropped: it is the root or the directory that the path starts from. -/
def dropFiller : List RawText → List RawText
  | name :: before :: more =>
    if isFiller name then dropFiller (before :: more) else name :: before :: more
  | names => names

/-- The path of these names, last one first. -/
def ofReversed : List RawText → Path
  | [[]] => [slash]
  | names => [slash].intercalate names.reverse

/-- The paths above one with these names, last one first, from the nearest outwards. -/
def parentsOf : List RawText → List Path
  | [] => []
  | [first] => if first = [] then [] else [[]]
  | name :: before :: more =>
    if isFiller name then parentsOf (before :: more)
    else ofReversed (dropFiller (before :: more)) :: parentsOf (before :: more)

/-- The paths above a path, from the nearest outwards. The last one is the empty path or the
root. -/
def parents (p : Path) : List Path := parentsOf p.names.reverse

/-- The path above a path. The root and the empty path have none. -/
def parent? (p : Path) : Option Path := p.parents.head?

/-- The directory that a path names for its last name, if it names any. -/
def directory? (p : Path) : Option Path := p.parent?.filter (!·.isEmpty)

/-- The last name of a path, unless it only leads elsewhere. -/
def fileName? (p : Path) : Option RawText :=
  match dropFiller p.names.reverse with
  | name :: _ => if isFiller name || name == up then none else some name
  | [] => none

/-- The last name of a path as it is shown. Where there is none, that is nothing. -/
def shownName (p : Path) : String := (p.fileName?.map RawText.shown).getD ""

/-- What stands behind the last point of a name, and what before it. -/
def splitLastPoint? (name : RawText) : Option (RawText × RawText) :=
  let behind := (name.reverse.takeWhile (· ≠ point)).reverse
  match name.reverse.drop behind.length with
  | _ :: front => some (front.reverse, behind)
  | [] => none

/-- The extension of a path's last name: what stands behind its last point, unless that is the
first character. -/
def extension? (p : Path) : Option RawText := do
  let (stem, extension) ← splitLastPoint? (← p.fileName?)
  if stem.isEmpty then none else some extension

/-- A path below another one. A path from the root stands for itself. -/
def join (p q : Path) : Path :=
  if q.isAbsolute then q
  else if p.isEmpty || p.getLast? == some slash then p ++ q
  else p ++ slash :: q

/-- A path with another last name. -/
def withFileName (p : Path) (name : RawText) : Path :=
  match p.fileName? with
  | some _ => (p.parent?.getD []).join name
  | none => p.join name

end Path

end ForeignModule
