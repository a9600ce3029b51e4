import ForeignModule.Abi.Tag
import ForeignModule.Text.Blank

/-!
# Types in C

The text of a C type is read as a list of words and stars. Qualifiers and storage classes say
nothing about how a value is passed, so they are dropped; what is left has one spelling, which is
looked up. On this platform a `long`, a size and an address have 64 bits.
-/

namespace ForeignModule.Abi.CType

/-- What the text of a type is made of. -/
inductive Part where
  | star
  | word (text : List Char)
deriving DecidableEq, Repr, Inhabited

/-- Words that do not change how a value is passed. -/
def qualifiers : List String :=
  ["const", "volatile", "static", "extern", "inline", "register", "restrict", "__restrict"]

/-- Adds a character to the word at the front, or starts one. -/
def Part.extend (c : Char) (joins : Bool) (parts : List Part) : List Part :=
  match joins, parts with
  | true, .word w :: rest => .word (c :: w) :: rest
  | _, _ => .word [c] :: parts

/-- Cuts a text into words and stars. -/
def parts : List Char → List Part
  | [] => []
  | c :: rest =>
    if Text.isBlank c then parts rest
    else if c = '*' then .star :: parts rest
    else
      let joins := match rest with
        | [] => false
        | next :: _ => !Text.isBlank next && next != '*'
      Part.extend c joins (parts rest)

/-- Is this a word that is dropped? -/
def Part.isQualifier : Part → Bool
  | star => false
  | word w => String.ofList w ∈ qualifiers

/-- Writes parts: words are set off by blanks, stars follow at once. -/
def write : List Part → List Char
  | [] => []
  | .star :: rest => '*' :: write rest
  | .word w :: rest => ' ' :: w ++ write rest

/-- The one spelling of a type. -/
def normalize (text : List Char) : List Char :=
  let spelled := write ((parts text).filter (!·.isQualifier))
  match spelled with
  | ' ' :: rest => rest
  | _ => spelled

/-- The types that are known by name. -/
def table : List (String × Tag) :=
  [("char", .signed .w8), ("signed char", .signed .w8), ("unsigned char", .unsigned .w8),
    ("short", .signed .w16), ("short int", .signed .w16), ("signed short", .signed .w16),
    ("signed short int", .signed .w16), ("unsigned short", .unsigned .w16),
    ("unsigned short int", .unsigned .w16), ("int", .signed .w32), ("signed", .signed .w32),
    ("signed int", .signed .w32), ("unsigned", .unsigned .w32), ("unsigned int", .unsigned .w32),
    ("long", .signed .w64), ("long int", .signed .w64), ("signed long", .signed .w64),
    ("signed long int", .signed .w64), ("unsigned long", .unsigned .w64),
    ("unsigned long int", .unsigned .w64), ("long long", .signed .w64),
    ("long long int", .signed .w64), ("signed long long", .signed .w64),
    ("signed long long int", .signed .w64), ("unsigned long long", .unsigned .w64),
    ("unsigned long long int", .unsigned .w64), ("float", .single), ("double", .double),
    ("long double", .double), ("bool", .bool), ("_Bool", .bool), ("int8_t", .signed .w8),
    ("uint8_t", .unsigned .w8), ("int16_t", .signed .w16), ("uint16_t", .unsigned .w16),
    ("int32_t", .signed .w32), ("uint32_t", .unsigned .w32), ("int64_t", .signed .w64),
    ("uint64_t", .unsigned .w64), ("size_t", .unsigned .w64), ("uintptr_t", .unsigned .w64),
    ("ssize_t", .signed .w64), ("ptrdiff_t", .signed .w64), ("intptr_t", .signed .w64),
    ("char*", .cstring), ("void", .void)]

/-- The tag of a C type. Whatever ends in a star is a pointer, if anything comes before it. -/
def tag? (text : String) : Option Tag :=
  let spelled := normalize text.toList
  match table.lookup (.ofList spelled) with
  | some tag => some tag
  | none => if spelled.getLast? = some '*' ∧ 1 < spelled.length then some .pointer else none

end ForeignModule.Abi.CType
