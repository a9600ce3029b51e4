import ForeignModule.Signature

/-!
# Function headers in C

A header is a return type, a name and a parameter list, and starts a line at file scope. The blocks
of `extern "C"` and of namespaces are still file scope; all other blocks are not. What the words of
a return type mean is not asked here.
-/

namespace ForeignModule.Signature.CHeader

/-- Words that start a statement or another declaration, but no header. -/
def otherStarts : List String :=
  ["if", "else", "while", "for", "do", "switch", "case", "return", "goto", "sizeof", "typedef",
    "using", "template", "delete", "new", "throw"]

/-- Is the block that opens behind these tokens still file scope? The tokens are given from the
nearest one backwards. -/
def opensFileScope : List Token → Bool
  | last :: word :: _ =>
    if word.isWord "extern" then last.kind matches .string _
    else if word.isWord "namespace" then last.kind.isIdentifier
    else last.isWord "namespace"
  | [last] => last.isWord "namespace"
  | [] => false

/-- The last word is the name and all else the type. Without any word all is taken for the name. -/
def parameter (tokens : List Token) : Parameter :=
  let behind := (tokens.reverse.takeWhile (!·.kind.isIdentifier)).reverse
  match tokens.reverse.drop behind.length with
  | name :: before =>
    { name := name.kind.text, type := Token.render before.reverse ++ Token.render behind }
  | [] => { name := Token.render tokens, type := "" }

/-- The parameters in a list. A single `void` stands for none. -/
def parameters (tokens : List Token) : List Parameter :=
  match tokens with
  | [t] => if t.isWord "void" then [] else Parameter.list parameter tokens
  | _ => Parameter.list parameter tokens

/-- The tokens of return types and names. -/
def isTypePart (t : Token) : Bool := t.kind.isIdentifier || t.kind == .star

/-- The header that starts with `first`, and the number of tokens behind that up to the end of its
parameter list. The name is the word before the parenthesis, and at least one token of type comes
before it. -/
def header? (first : Token) (rest : List Token) : Option (Signature × Nat) := do
  let word ← first.identifier?
  guard (word ∉ otherStarts)
  let more := rest.takeWhile isTypePart
  let name ← (← more.getLast?).identifier?
  let (inside, _) ← Token.group? .paren (rest.drop more.length)
  pure (⟨name, Token.render (first :: more.dropLast), parameters inside⟩,
    more.length + inside.length + 2)

/-- The headers in a token list. `scopes` tells of each open block, from the inside out, whether it
is file scope; `before` holds the tokens already passed, nearest first; `skip` tokens belong to the
header before. -/
def headers (scopes : List Bool) (before : List Token) (skip : Nat) : List Token → List Signature
  | [] => []
  | t :: rest =>
    match skip with
    | skip + 1 => headers scopes (t :: before) skip rest
    | 0 =>
      if t.kind.opens .brace then
        headers (opensFileScope before :: scopes) (t :: before) 0 rest
      else if t.kind.closes .brace then headers scopes.tail (t :: before) 0 rest
      else
        match if t.startsLine && scopes.all id then header? t rest else none with
        | some (signature, taken) => signature :: headers scopes (t :: before) taken rest
        | none => headers scopes (t :: before) 0 rest

end CHeader

/-- The functions that a C source declares or defines, in order, with repetitions. -/
def ofC (source : String) : Except Violation (List Signature) :=
  match tokenize .c source with
  | .ok tokens => .ok (CHeader.headers [] [] 0 tokens)
  | .error e => .error (.unclosed e)

end ForeignModule.Signature
