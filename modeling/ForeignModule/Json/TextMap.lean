import ForeignModule.Json.Quoted

/-!
# Maps of texts in JSON

A JSON object whose values are texts. `render` writes pairs one a line; `pairs?` reads any such
object, and keeps the pairs in the order in which they stand.
-/

namespace ForeignModule.Json

/-! ## Writing -/

/-- One pair on a line of its own, without the line end. -/
def renderPair (pair : String × String) : List Char :=
  "  ".toList ++ quote pair.1.toList ++ ": ".toList ++ quote pair.2.toList

/-- An object with these pairs. -/
def render : List (String × String) → List Char
  | [] => ['\x7b', '\x7d']
  | pairs => '\x7b' :: '\n' :: ([',', '\n'].intercalate (pairs.map renderPair)) ++ ['\n', '\x7d']

/-! ## Reading -/

/-- The marks and texts of an object. -/
inductive Token where
  | openBrace
  | closeBrace
  | colon
  | comma
  | text (s : String)
deriving DecidableEq, Repr, Inhabited

/-- Is this white space between tokens? -/
def isSpace (c : Char) : Bool := c == ' ' || c == '\t' || c == '\n' || c == '\r'

/-- The mark that a character is. -/
def mark? : Char → Option Token
  | '\x7b' => some .openBrace
  | '\x7d' => some .closeBrace
  | ':' => some .colon
  | ',' => some .comma
  | _ => none

/-- Reads tokens. Inside a text, `inside` holds its units so far, last one first; the next `skip`
characters belong to what came before. -/
def tokensFrom? (skip : Nat) (inside : Option (List TextUnit)) : List Char → Option (List Token)
  | [] => if inside.isNone then some [] else none
  | c :: rest =>
    match skip, inside with
    | skip + 1, _ => tokensFrom? skip inside rest
    | 0, none =>
      if isSpace c then tokensFrom? 0 none rest
      else if c = '"' then tokensFrom? 0 (some []) rest
      else do
        let t ← mark? c
        let more ← tokensFrom? 0 none rest
        pure (t :: more)
    | 0, some units =>
      if c = '"' then do
        let text ← joinUnits units.reverse
        let more ← tokensFrom? 0 none rest
        pure (.text (.ofList text) :: more)
      else if c = '\\' then
        match escape? rest with
        | some (unit, taken) => tokensFrom? taken (some (unit :: units)) rest
        | none => none
      else if isControl c then none
      else tokensFrom? 0 (some (.char c :: units)) rest

/-- Reads the pairs behind the opening brace, of which there is at least one. -/
def morePairs? : List Token → Option (List (String × String))
  | .text key :: .colon :: .text value :: .comma :: rest =>
    (morePairs? rest).map ((key, value) :: ·)
  | [.text key, .colon, .text value, .closeBrace] => some [(key, value)]
  | _ => none

/-- The pairs of an object. -/
def pairs? (text : List Char) : Option (List (String × String)) := do
  match ← tokensFrom? 0 none text with
  | [.openBrace, .closeBrace] => some []
  | .openBrace :: rest => morePairs? rest
  | _ => none

end ForeignModule.Json
