import ForeignModule.Abi.Tag
import ForeignModule.Text.Blank
import ForeignModule.Text.Search

/-!
# Types in Rust

The text of a Rust type is told by its start: function pointers, options, raw pointers and
references come first, and what is left is known by the last segment of its path.
-/

namespace ForeignModule.Abi.RustType

/-- The last segment of a path. -/
def lastSegment (text : List Char) : List Char :=
  Text.trim ((Text.afterLast? "::".toList text).getD text)

/-- A text without `start`, if it begins with it. -/
def dropStart (start : String) (text : List Char) : List Char :=
  (Text.stripStart? start.toList text).getD text

/-- Is this the type of a function pointer? -/
def isFunction (text : List Char) : Bool :=
  "fn(".toList.isPrefixOf (dropStart "extern \"C\" " (dropStart "unsafe " text))

/-- What is inside an `Option`. -/
def payload? (text : List Char) : Option (List Char) :=
  (Text.stripStart? "Option<".toList text).bind (Text.stripEnd? ['>'])

/-- What a raw pointer points to. -/
def pointee? (text : List Char) : Option (List Char) :=
  (Text.stripStart? "*const ".toList text).or (Text.stripStart? "*mut ".toList text)

/-- What a reference refers to: behind its lifetime and its mutability, if there are any. -/
def referent? (text : List Char) : Option (List Char) :=
  (Text.stripStart? ['&'] text).map fun rest => (Text.afterLast? [' '] rest).getD rest

/-- The types that are known by name. -/
def table : List (String × Tag) :=
  [("i8", .signed .w8), ("c_char", .signed .w8), ("c_schar", .signed .w8),
    ("u8", .unsigned .w8), ("c_uchar", .unsigned .w8), ("i16", .signed .w16),
    ("c_short", .signed .w16), ("u16", .unsigned .w16), ("c_ushort", .unsigned .w16),
    ("i32", .signed .w32), ("c_int", .signed .w32), ("u32", .unsigned .w32),
    ("c_uint", .unsigned .w32), ("i64", .signed .w64), ("c_longlong", .signed .w64),
    ("u64", .unsigned .w64), ("c_ulonglong", .unsigned .w64), ("c_long", .signed .w64),
    ("c_ulong", .unsigned .w64), ("usize", .unsigned .w64), ("isize", .signed .w64),
    ("f32", .single), ("c_float", .single), ("float", .single), ("f64", .double),
    ("c_double", .double), ("double", .double), ("bool", .bool), ("CStr", .cstring)]

/-- The tag of a type that is not an option. -/
def plainTag? (text : List Char) : Option Tag :=
  if text = [] ∨ text = ['(', ')'] then some .void
  else if isFunction text then some .function
  else
    match pointee? text with
    | some inner => some (if lastSegment inner = "c_char".toList then .cstring else .pointer)
    | none =>
      match referent? text with
      | some inner => some (if lastSegment inner = "CStr".toList then .cstring else .pointer)
      | none => table.lookup (.ofList (lastSegment text))

theorem length_trim_le (text : List Char) : (Text.trim text).length ≤ text.length := by
  have start : (Text.trimStart text).length ≤ text.length := (List.dropWhile_sublist _).length_le
  have stop : ∀ s : List Char, (Text.trimEnd s).length ≤ s.length := fun s => by
    simpa [Text.trimEnd] using (List.dropWhile_sublist (l := s.reverse) Text.isBlank).length_le
  exact Nat.le_trans (stop _) start

theorem length_payload_lt {text inner : List Char} (h : payload? text = some inner) :
    inner.length < text.length := by
  obtain ⟨rest, hrest, hinner⟩ := Option.bind_eq_some_iff.1 h
  rw [Text.stripStart?_eq_some_iff.1 hrest, Text.stripEnd?_eq_some_iff.1 hinner]
  simp
  omega

/-- The tag of a Rust type, given without blanks around it. An option is passed like its payload
if that is an address, and is not known otherwise. -/
def tagOf? (text : List Char) : Option Tag :=
  match _h : payload? text with
  | some inner => (tagOf? (Text.trim inner)).filter Tag.isAddress
  | none => plainTag? text
termination_by text.length
decreasing_by
  exact Nat.lt_of_le_of_lt (length_trim_le inner) (length_payload_lt _h)

/-- The tag of a Rust type. -/
def tag? (text : String) : Option Tag := tagOf? (Text.trim text.toList)

end ForeignModule.Abi.RustType
