import ForeignModule.Signature

/-!
# Exported functions in Rust

A function is exported when it is marked `extern "C"`. A block of imports and a function pointer
type carry the same mark, and no function name follows there. Headers may span lines.
-/

namespace ForeignModule.Signature.RustExport

/-- The result type of a function without an arrow. -/
def unitType : String := "()"

/-- Does the search for a function name end at this token? -/
def endsSearch : Token.Kind → Bool
  | .opening .brace | .closing .brace | .semicolon => true
  | _ => false

/-- What follows the next `fn`, and the number of tokens up to there, unless a brace or a semicolon
comes before it. -/
def afterFn? (taken : Nat) : List Token → Option (List Token × Nat)
  | [] => none
  | t :: rest =>
    if t.isWord "fn" then some (rest, taken + 1)
    else if endsSearch t.kind then none
    else afterFn? (taken + 1) rest

/-- The tokens of a result type at the front. It ends outside brackets, before a body, a semicolon
or a where clause; braces do not count as brackets here. -/
def resultTokens (depth : Int) : List Token → List Token
  | [] => []
  | t :: rest =>
    let stops := t.kind.opens .brace || t.kind == .semicolon || t.isWord "where"
    if stops && depth ≤ 0 then []
    else
      let depth :=
        if t.kind.opens .brace || t.kind.closes .brace then depth else depth + t.kind.nesting
      t :: resultTokens depth rest

/-- What stands before the colon is the name, without the word that makes it mutable. Without a
colon all is taken for the name. -/
def parameter (tokens : List Token) : Parameter :=
  match Token.breakTopLevel? .colon 0 tokens with
  | some (before, after) =>
    { name := Token.render (before.filter (!·.isWord "mut")), type := Token.render after }
  | none => { name := Token.render tokens, type := "" }

/-- The number of tokens that generic parameters take up, if there are any. -/
def generics? (tokens : List Token) : Option Nat :=
  if tokens.head?.any (·.kind.opens .angle) then
    (Token.group? .angle tokens).map fun (inside, _) => inside.length + 2
  else some 0

/-- The function behind an `extern "C"`, and the number of tokens up to the end of its header. -/
def function? (rest : List Token) : Option (Signature × Nat) := do
  let (tokens, before) ← afterFn? 0 rest
  let name ← (← tokens.head?).identifier?
  let generics ← generics? tokens.tail
  let (inside, after) ← Token.group? .paren (tokens.tail.drop generics)
  let parameters := Parameter.list parameter inside
  let taken := before + generics + inside.length + 3
  if after.head?.any (·.kind == .arrow) then
    let type := resultTokens 0 after.tail
    pure (⟨name, Token.render type, parameters⟩, taken + 1 + type.length)
  else pure (⟨name, unitType, parameters⟩, taken)

/-- The functions in a token list; `skip` tokens belong to the function before. -/
def functions (skip : Nat) : List Token → List Signature
  | [] => []
  | t :: rest =>
    match skip with
    | skip + 1 => functions skip rest
    | 0 =>
      let exported := t.isWord "extern" && rest.head?.any (·.kind == .string "C")
      match if exported then function? rest.tail else none with
      | some (signature, taken) => signature :: functions (taken + 1) rest
      | none => functions 0 rest

end RustExport

/-- The functions that a Rust source exports, in order, with repetitions. -/
def ofRust (source : String) : Except Violation (List Signature) :=
  match tokenize .rust source with
  | .ok tokens => .ok (RustExport.functions 0 tokens)
  | .error e => .error (.unclosed e)

end ForeignModule.Signature
