import ForeignModule.Abi.Tag
import ForeignModule.Text.Blank
import ForeignModule.Text.Search

/-!
# Types in Kotlin

A Kotlin type is known by its simple name. It has two meanings that have to agree: the tag with
which it is bound, and the C type with which the forwarding function declares it.
-/

namespace ForeignModule.Abi.KotlinType

/-- A type without the marks of nullability and without its package, if that is `kotlin`. -/
def simpleName (text : String) : String :=
  let trimmed := ((Text.trim text.toList).reverse.dropWhile (· == '?')).reverse
  .ofList ((Text.stripStart? "kotlin.".toList trimmed).getD trimmed)

/-- The types that are known by name. -/
def table : List (String × Tag) :=
  [("String", .cstring), ("Number", .signed .w32), ("Int", .signed .w32), ("Byte", .signed .w8),
    ("Char", .signed .w8), ("Short", .signed .w16), ("Long", .signed .w64),
    ("UByte", .unsigned .w8), ("UShort", .unsigned .w16), ("UInt", .unsigned .w32),
    ("ULong", .unsigned .w64), ("Boolean", .bool), ("Float", .single), ("Double", .double),
    ("CFunction", .function), ("Unit", .void)]

/-- The tag of a Kotlin type. -/
def tag? (text : String) : Option Tag := table.lookup (simpleName text)

/-- The C types of the forwarding functions. -/
def cTable : List (String × String) :=
  [("String", "const char*"), ("Number", "int"), ("Int", "int"), ("Byte", "char"),
    ("Char", "char"), ("Short", "short"), ("Long", "long long"), ("UByte", "unsigned char"),
    ("UShort", "unsigned short"), ("UInt", "unsigned int"), ("ULong", "unsigned long long"),
    ("Boolean", "bool"), ("Float", "float"), ("Double", "double"), ("CFunction", "void*")]

/-- The C type of a Kotlin type. One that is in no table becomes `void`. -/
def cType (text : String) : String := (cTable.lookup (simpleName text)).getD "void"

end ForeignModule.Abi.KotlinType
