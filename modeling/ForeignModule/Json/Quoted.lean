import ForeignModule.Number.Decimal

/-!
# Quoted texts in JSON

A text in quotes is written as units: a character that stands for itself, or an escape, which may
give one half of a character above U+FFFF. `quote` writes a text, `scanQuoted` reads the units of
one, and `joinUnits` puts them together.
-/

namespace ForeignModule.Json

/-- The letters of the short escapes, with what they stand for. -/
def shortEscapes : List (Char × Char) :=
  [('"', '"'), ('\\', '\\'), ('b', '\x08'), ('f', '\x0c'), ('n', '\n'), ('r', '\r'), ('t', '\t')]

/-- Has the character to be escaped by a number if it has no short escape? -/
def isControl (c : Char) : Bool := c < ' '

/-- A character as it is written in quotes. -/
def quoteChar (c : Char) : List Char :=
  match shortEscapes.find? (·.2 == c) with
  | some (letter, _) => ['\\', letter]
  | none =>
    if isControl c then ['\\', 'u', '0', '0', (c.toNat / 16).digitChar, (c.toNat % 16).digitChar]
    else [c]

/-- A text in quotes. -/
def quote (text : List Char) : List Char := '"' :: text.flatMap quoteChar ++ ['"']

/-- A part of a quoted text: a character, or sixteen bits given by their number. -/
inductive TextUnit where
  | char (c : Char)
  | number (n : Nat)
deriving DecidableEq, Repr, Inhabited

/-- The unit of an escape, given what follows the backslash, and how many characters that takes. A
slash may be escaped too. -/
def escape? : List Char → Option (TextUnit × Nat)
  | 'u' :: rest => do
    let digits := rest.take 4
    guard (digits.length = 4)
    let n ← Number.digits? 16 digits
    pure (.number n, 5)
  | '/' :: _ => some (.char '/', 1)
  | letter :: _ => (shortEscapes.lookup letter).map fun c => (.char c, 1)
  | [] => none

/-- Is the number the first half of a character above U+FFFF? -/
def isHighHalf (n : Nat) : Bool := 0xd800 ≤ n && n < 0xdc00

/-- Is the number the second half of such a character? -/
def isLowHalf (n : Nat) : Bool := 0xdc00 ≤ n && n < 0xe000

/-- The text of units. Halves have to come in pairs. -/
def joinUnits : List TextUnit → Option (List Char)
  | [] => some []
  | .char c :: rest => (joinUnits rest).map (c :: ·)
  | .number n :: .number m :: rest =>
    if isHighHalf n then
      if isLowHalf m then
        let c := Char.ofNat (0x10000 + (n - 0xd800) * 0x400 + (m - 0xdc00))
        (joinUnits rest).map (c :: ·)
      else none
    else if isLowHalf n then none
    else (joinUnits (.number m :: rest)).map (Char.ofNat n :: ·)
  | .number n :: rest =>
    if isHighHalf n || isLowHalf n then none else (joinUnits rest).map (Char.ofNat n :: ·)

end ForeignModule.Json
