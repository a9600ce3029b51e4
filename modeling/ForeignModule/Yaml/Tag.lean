import ForeignModule.Number.Decimal
import ForeignModule.Text.Utf8
import ForeignModule.Yaml.Character

/-!
# Tags in YAML

A tag says what kind of value it stands before. It is written in full, or as a handle with what
follows it; the directives before a document say what its handles stand for.

* `Tag.Written.scan` and `Directive.scan` read what follows a `!` and a `%` that start one;
* `Handles.ofDirectives?` and `Handles.tag?` give the full tags.
-/

namespace ForeignModule.Yaml

/-- A tag in full. Escapes may make bytes that are no text. -/
structure Tag where
  bytes : List UInt8
deriving DecidableEq, Repr, Inhabited

namespace Tag

/-- The front of the tags that the language defines. -/
def standard : String := "tag:yaml.org,2002:"

/-- A tag that the language defines. -/
def named (name : String) : Tag := ⟨Text.bytes (standard ++ name)⟩

def null : Tag := named "null"
def bool : Tag := named "bool"
def int : Tag := named "int"
def float : Tag := named "float"

/-- Does the tag start with the mark of tags that a document defines for itself? -/
def hasMark (t : Tag) : Bool := t.bytes.head? == some '!'.toUInt8

/-- Is the tag one that a document defines for itself? Its name is a text. -/
def isLocal (t : Tag) : Bool := t.hasMark && (Text.decode? t.bytes).isSome

/-- The tag of nothing but the mark. -/
def mark : Tag := ⟨Text.bytes "!"⟩

/-! ## Characters and octets -/

/-- The characters that stand for themselves in a tag. In a full one commas and brackets do so
too. -/
def isPart (full : Bool) (c : Char) : Bool :=
  isNamePart c || [';', '/', '?', ':', '@', '&', '=', '+', '$', '.', '!', '~', '*', '\'', '(',
    ')'].contains c || (full && [',', '[', ']'].contains c)

/-- The octet that two hexadecimal digits stand for. -/
def octet? (digits : List Char) : Option UInt8 := do
  guard (digits.length = 2)
  return .ofNat (← Number.digits? 16 digits)

/-- How many octets continue the character that goes on with this one, of which `pending` have been
missing so far. -/
def missing? (pending : Nat) (octet : UInt8) : Option Nat :=
  match pending with
  | pending + 1 => if octet / 64 = 2 then some pending else none
  | 0 =>
    if octet < 128 then some 0
    else if octet / 32 = 6 then some 1
    else if octet / 16 = 14 then some 2
    else if octet / 8 = 30 then some 3
    else none

/-- Reads the characters of a tag and its escapes, and says how many characters it takes up. A
character of several octets is escaped as a whole. `bytes` holds what has been read, last byte
first; `skip` characters have been read already. -/
def scanFrom (full : Bool) (skip pending taken : Nat) (bytes : List UInt8) :
    List Char → Option (List UInt8 × Nat)
  | [] => if pending = 0 then some (bytes.reverse, taken) else none
  | c :: rest =>
    match skip with
    | skip + 1 => scanFrom full skip pending (taken + 1) bytes rest
    | 0 =>
      if c = '%' then
        match octet? (rest.take 2) with
        | none => none
        | some octet =>
          match missing? pending octet with
          | none => none
          | some pending => scanFrom full 2 pending (taken + 1) (octet :: bytes) rest
      else if pending ≠ 0 then none
      else if isPart full c then scanFrom full 0 0 (taken + 1) (c.toUInt8 :: bytes) rest
      else some (bytes.reverse, taken)

/-- The bytes at the front of a text that belong to a tag, up to a zero among them, and the number
of characters that they take up. -/
def scan (full : Bool) (text : List Char) : Option (List UInt8 × Nat) :=
  (scanFrom full 0 0 0 [] text).map fun (bytes, taken) => (bytes.takeWhile (· ≠ 0), taken)

/-- A tag as it is written. -/
structure Written where
  /-- Empty if the tag is given in full. -/
  handle : String
  rest : List UInt8
deriving DecidableEq, Repr, Inhabited

namespace Written

/-- Reads the parts of a tag, given what follows its mark. A mark alone is a tag in full. -/
def parts (text : List Char) : Option (Written × Nat) := do
  let name := text.takeWhile isNamePart
  match text.head?, text.drop name.length with
  | some '<', _ =>
    let (bytes, taken) ← scan true text.tail
    guard (taken ≠ 0 ∧ (text.tail.drop taken).head? = some '>')
    return (⟨"", bytes⟩, taken + 2)
  | _, '!' :: behind =>
    let (bytes, taken) ← scan false behind
    guard (taken ≠ 0)
    return (⟨"!" ++ .ofList name ++ "!", bytes⟩, name.length + 1 + taken)
  | _, _ =>
    let (bytes, taken) ← scan false text
    return (if bytes.isEmpty then ⟨"", mark.bytes⟩ else ⟨"!", bytes⟩, taken)

/-- Reads a tag, given what follows its mark. A blank or a line end has to follow the tag; in a flow
collection it may be a comma. -/
def scan (flow : Bool) (text : List Char) : Option (Written × Nat) := do
  let (written, taken) ← parts text
  let behind := text.drop taken
  guard (atGap behind || (flow && behind.head? == some ','))
  return (written, taken)

end Written

end Tag

/-- What a line before a document says about it. -/
inductive Directive where
  | version (major minor : Nat)
  /-- What a handle stands for. -/
  | handle (name : String) (meaning : List UInt8)
deriving DecidableEq, Repr, Inhabited

namespace Directive

/-- The number of digits in a version number is limited. -/
def digitLimit : Nat := 9

/-- Reads a number of a version. -/
def number? (text : List Char) : Option (Nat × Nat) := do
  let digits := text.takeWhile Char.isDigit
  guard (digits.length ≤ digitLimit)
  return (← Number.digits? 10 digits, digits.length)

/-- Reads the version of the language. -/
def version? (text : List Char) : Option (Directive × Nat) := do
  let (major, first) ← number? text
  match text.drop first with
  | '.' :: behind =>
    let (minor, second) ← number? behind
    return (.version major minor, first + 1 + second)
  | _ => none

/-- Reads a handle and what it stands for. -/
def handle? (text : List Char) : Option (Directive × Nat) := do
  guard (text.head? = some '!')
  let name := text.tail.takeWhile isNamePart
  let closing := (text.tail.drop name.length).head? = some '!'
  guard (name.isEmpty ∨ closing)
  let handle := '!' :: name ++ if closing then ['!'] else []
  let behind := text.drop handle.length
  let blanks := behind.takeWhile isBlank
  guard !blanks.isEmpty
  let (meaning, taken) ← Tag.scan true (behind.drop blanks.length)
  guard (taken ≠ 0 ∧ atGap (behind.drop (blanks.length + taken)))
  return (.handle (.ofList handle) meaning, handle.length + blanks.length + taken)

/-- Reads a directive with the end of its line, given what follows its mark. -/
def scan (text : List Char) : Option (Directive × Nat) := do
  let name := text.takeWhile isNamePart
  let blanks := (text.drop name.length).takeWhile isBlank
  let start := name.length + blanks.length
  guard (!blanks.isEmpty)
  let (directive, taken) ← match String.ofList name with
    | "YAML" => version? (text.drop start)
    | "TAG" => handle? (text.drop start)
    | _ => none
  let behind := text.drop (start + taken)
  let blanks := behind.takeWhile isBlank
  let comment := (behind.drop blanks.length).takeWhile (!isBreak ·)
  guard (comment.head?.all (· == '#'))
  let stop := match behind.drop (blanks.length + comment.length) with
    | '\r' :: '\n' :: _ => 2
    | [] => 0
    | _ => 1
  return (directive, start + taken + blanks.length + comment.length + stop)

end Directive

/-- What the handles of a document stand for. Of two meanings the first one counts. -/
abbrev Handles := List (String × List UInt8)

namespace Handles

/-- The handles that need no directive. -/
def usual : Handles := [("!", Tag.mark.bytes), ("!!", Text.bytes Tag.standard)]

/-- The handles under these directives, of which only some make sense together. There is one
version at most, it is a known one, and no handle is given twice. -/
def ofDirectives? (directives : List Directive) : Option Handles := do
  let versions := directives.filterMap fun
    | .version major minor => some (major, minor)
    | .handle _ _ => none
  let given := directives.filterMap fun
    | .handle name meaning => some (name, meaning)
    | .version _ _ => none
  guard (versions.length ≤ 1 ∧ versions.all [(1, 1), (1, 2)].contains)
  guard ((given.map Prod.fst).eraseDups.length = given.length)
  return given ++ usual

/-- The full tag of one that is written. -/
def tag? (handles : Handles) (t : Tag.Written) : Option Tag :=
  if t.handle.isEmpty then some ⟨t.rest⟩
  else (handles.lookup t.handle).map fun meaning => ⟨meaning ++ t.rest⟩

end Handles

end ForeignModule.Yaml
