/-!
# UTF-8

Texts and byte lists. A text has one form in bytes; bytes that are no text either have no text at
all (`decode?`) or one in which every stretch that cannot be part of a character is replaced
(`decodeLossy`). A stretch is as long as it could still have become a character.
-/

namespace ForeignModule.Text

/-- The bytes of a text. -/
def bytes (text : String) : List UInt8 := text.toList.flatMap String.utf8EncodeChar

/-- The character that stands for bytes that are none. -/
def replacement : Char := '\ufffd'

/-- Does the byte continue a character? -/
def continues (b : UInt8) : Bool := 0x80 ≤ b && b ≤ 0xbf

/-- How many bytes continue a character that starts with `b`, and between which bounds the first
of them lies. The bounds leave out overlong forms, surrogates and what lies above U+10FFFF. -/
def continuation? (b : UInt8) : Option (Nat × UInt8 × UInt8) :=
  if 0xc2 ≤ b ∧ b ≤ 0xdf then some (1, 0x80, 0xbf)
  else if b = 0xe0 then some (2, 0xa0, 0xbf)
  else if b = 0xed then some (2, 0x80, 0x9f)
  else if 0xe1 ≤ b ∧ b ≤ 0xef then some (2, 0x80, 0xbf)
  else if b = 0xf0 then some (3, 0x90, 0xbf)
  else if b = 0xf4 then some (3, 0x80, 0x8f)
  else if 0xf1 ≤ b ∧ b ≤ 0xf3 then some (3, 0x80, 0xbf)
  else none

/-- The value of a character of more than one byte. -/
def scalar (first : UInt8) (more : List UInt8) : Char :=
  let front := first.toNat % Nat.pow 2 (6 - more.length)
  Char.ofNat (more.foldl (fun value b => value * 64 + b.toNat % 64) front)

/-- What a byte starts, and how many of the bytes behind it belong to that. -/
def decodeAt (b : UInt8) (rest : List UInt8) : Option Char × Nat :=
  if b < 0x80 then (some (Char.ofNat b.toNat), 0)
  else
    match continuation? b, rest with
    | some (count, low, high), next :: after =>
      if low ≤ next ∧ next ≤ high then
        let more := (after.take (count - 1)).takeWhile continues
        if more.length = count - 1 then (some (scalar b (next :: more)), count)
        else (none, more.length + 1)
      else (none, 0)
    | _, _ => (none, 0)

/-- Cuts bytes into characters and stretches that are none; the first `skip` bytes belong to what
came before. -/
def characters (skip : Nat) : List UInt8 → List (Option Char)
  | [] => []
  | b :: rest =>
    match skip with
    | skip + 1 => characters skip rest
    | 0 =>
      let (c?, more) := decodeAt b rest
      c? :: characters more rest

/-- The text of these bytes, if they are one. -/
def decode? (bytes : List UInt8) : Option String :=
  ((characters 0 bytes).mapM id).map String.ofList

/-- The text of these bytes, with a replacement for each stretch that is no character. -/
def decodeLossy (bytes : List UInt8) : String :=
  .ofList ((characters 0 bytes).map (·.getD replacement))

end ForeignModule.Text
