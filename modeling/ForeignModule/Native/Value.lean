import ForeignModule.Number.Decimal
import ForeignModule.Text.Quoted
import ForeignModule.Text.Search

/-!
# Native values

The values that go into a call and come out of it, how they are shown, and how they are read from
a literal on a command line.
-/

namespace ForeignModule.Native

/-- A value on this side of the call boundary. -/
inductive Value where
  /-- What a function without a result returns. -/
  | void
  | bool (b : Bool)
  | int (n : Int64)
  | uint (n : UInt64)
  | float (x : Number.Double)
  | text (s : String)
  | pointer (address : UInt64)
  | null
deriving DecidableEq, Repr, Inhabited

namespace Value

/-- The name of a value's kind. -/
def kind : Value → String
  | void => "void"
  | bool _ => "bool"
  | int _ => "int"
  | uint _ => "uint"
  | float _ => "float"
  | text _ => "text"
  | pointer _ => "pointer"
  | null => "null"

/-- A value as it is shown. -/
def display : Value → String
  | void => "()"
  | bool b => if b then "true" else "false"
  | int n => toString n.toInt
  | uint n => toString n.toNat
  | float x => x.text
  | text s => Text.quote s
  | pointer a => "0x" ++ .ofList (Text.hexDigits a.toNat)
  | null => "null"

/-! ## Literals -/

/-- A whole number that fits 64 bits with or without a sign. -/
def ofInt? (n : Int) : Option Value :=
  if -Nat.pow 2 63 ≤ n ∧ n < Nat.pow 2 63 then some (int (.ofInt n))
  else if 0 ≤ n ∧ n < Nat.pow 2 64 then some (uint (.ofNat n.toNat))
  else none

/-- Reads an address: `0x` and hexadecimal digits, perhaps with a plus between them. -/
def address? (literal : List Char) : Option Value := do
  let digits ← Text.stripStart? ['0', 'x'] literal
  let address ← Number.digits? 16 ((Text.stripStart? ['+'] digits).getD digits)
  if address < Nat.pow 2 64 then some (pointer (.ofNat address)) else none

/-- Reads a number: a whole one if it fits, else a floating-point one. -/
def number? (literal : List Char) : Option Value :=
  ((Number.integer? literal).bind ofInt?).or ((Number.Double.ofText? literal).map float)

/-- Reads a literal. A quote at its start makes it a text, and a further quote at its end is not
part of that; what is nothing else is a text too. -/
def ofLiteral (literal : String) : Value :=
  match Text.stripStart? ['"'] literal.toList with
  | some quoted => text (.ofList ((Text.stripEnd? ['"'] quoted).getD quoted))
  | none =>
    if literal = "true" then bool true
    else if literal = "false" then bool false
    else if literal = "null" then null
    else ((address? literal.toList).or (number? literal.toList)).getD (text literal)

end Value

end ForeignModule.Native
