import ForeignModule.Signature

/-!
# Top-level functions in Kotlin

A function is exported when it stands outside all braces and its name follows `fun` or the type
parameters directly, which an extension function's does not. It has to spell out its result type.
-/

namespace ForeignModule.Signature.KotlinFunction

/-- The names of a qualified name at the front. -/
def qualifiedName : List Token → List Token
  | name :: dot :: next :: rest =>
    if name.kind.isIdentifier then
      if dot.kind = .dot ∧ next.kind.isIdentifier then name :: dot :: qualifiedName (next :: rest)
      else [name]
    else []
  | name :: _ => if name.kind.isIdentifier then [name] else []
  | [] => []

/-- The tokens of a type at the front: a qualified name, perhaps with type arguments, perhaps with
a question mark. -/
def typeTokens (tokens : List Token) : List Token :=
  let name := qualifiedName tokens
  if name.isEmpty then []
  else
    let rest := tokens.drop name.length
    let arguments := match Token.group? .angle rest with
      | some (inside, _) => rest.take (inside.length + 2)
      | none => []
    let mark := (rest.drop arguments.length).head?.filter (·.kind == .question)
    name ++ arguments ++ mark.toList

/-- The last word before the colon is the name, so modifiers are passed over; the type ends before
a default value. Without a colon all is taken for the name. -/
def parameter (tokens : List Token) : Parameter :=
  match Token.breakTopLevel? .colon 0 tokens with
  | some (before, after) =>
    let name := (before.reverse.findSome? Token.identifier?).getD ""
    let type := match Token.breakTopLevel? .equals 0 after with
      | some (type, _) => type
      | none => after
    { name, type := Token.render type }
  | none => { name := Token.render tokens, type := "" }

/-- The number of tokens that type parameters take up, if there are any. -/
def typeParameters? (tokens : List Token) : Option Nat :=
  if tokens.head?.any (·.kind.opens .angle) then
    (Token.group? .angle tokens).map fun (inside, _) => inside.length + 2
  else some 0

/-- A name with a parameter list: the name, what is inside the list and what follows it, and the
number of tokens up to there. -/
def nameAndList? (tokens : List Token) : Option (String × List Token × List Token × Nat) := do
  let before ← typeParameters? tokens
  let tokens := tokens.drop before
  let name ← (← tokens.head?).identifier?
  let (inside, after) ← Token.group? .paren tokens.tail
  pure (name, inside, after, before + inside.length + 3)

/-- The function behind a `fun` on the given line, and the number of tokens up to the end of its
result type. -/
def function? (line : Nat) (rest : List Token) :
    Except Violation (Option (Signature × Nat)) :=
  match nameAndList? rest with
  | none => .ok none
  | some (name, inside, after, taken) =>
    let type := if after.head?.any (·.kind == .colon) then typeTokens after.tail else []
    let result := Token.render type
    if result.isEmpty then .error (.missingResultType name line)
    else .ok (some (⟨name, result, Parameter.list parameter inside⟩, taken + 1 + type.length))

/-- The functions in a token list. `depth` counts the open braces, and a closing brace too many
counts for nothing; `skip` tokens belong to the function before. -/
def functions (depth : Nat) (skip : Nat) : List Token → Except Violation (List Signature)
  | [] => .ok []
  | t :: rest =>
    match skip with
    | skip + 1 => functions depth skip rest
    | 0 =>
      let depth :=
        if t.kind.opens .brace then depth + 1
        else if t.kind.closes .brace then depth - 1
        else depth
      match if depth = 0 ∧ t.isWord "fun" then function? t.line rest else .ok none with
      | .error e => .error e
      | .ok none => functions depth 0 rest
      | .ok (some (signature, taken)) => (functions depth taken rest).map (signature :: ·)

end KotlinFunction

/-- The functions that a Kotlin source exports, in order, with repetitions. -/
def ofKotlin (source : String) : Except Violation (List Signature) :=
  match tokenize .kotlin source with
  | .ok tokens => KotlinFunction.functions 0 0 tokens
  | .error e => .error (.unclosed e)

end ForeignModule.Signature
