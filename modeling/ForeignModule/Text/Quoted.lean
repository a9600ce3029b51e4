import ForeignModule.Text.Visible

/-!
# Quoted texts

A text in double quotes, with everything that would not show written as an escape. A single quote
stays as it is.
-/

namespace ForeignModule.Text

/-- The lower-case hexadecimal digits of a number, without leading zeros. -/
def hexDigits (n : Nat) : List Char := Nat.toDigits 16 n

/-- A character between double quotes. -/
def escape (c : Char) : List Char :=
  match c with
  | '\x00' => ['\\', '0']
  | '\t' => ['\\', 't']
  | '\r' => ['\\', 'r']
  | '\n' => ['\\', 'n']
  | '"' => ['\\', '"']
  | '\\' => ['\\', '\\']
  | _ =>
    if showsAlone c then [c] else ['\\', 'u', '\x7b'] ++ hexDigits c.toNat ++ ['\x7d']

/-- A text in double quotes. -/
def quote (text : String) : String :=
  .ofList ('"' :: text.toList.flatMap escape ++ ['"'])

end ForeignModule.Text
