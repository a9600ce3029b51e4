import ForeignModule.Source.Position

/-!
# Tokens

The words of a source file, as far as the recognition of function headers needs them told apart.
The three grammars share one alphabet; what no grammar asks about is `punctuation`.
-/

namespace ForeignModule

/-- The grammar under which a text is cut into tokens. The dialects differ in whether comments
nest, in lines that belong to the preprocessor and in the forms of literals. -/
inductive Dialect where
  | c
  | kotlin
  | rust
deriving DecidableEq, Repr, Inhabited

/-- The four kinds of brackets. -/
inductive Bracket where
  | paren
  | square
  | brace
  | angle
deriving DecidableEq, Repr, Inhabited

namespace Bracket

/-- The opening form. -/
def opening : Bracket → Char
  | paren => '('
  | square => '['
  | brace => '\x7b'
  | angle => '<'

/-- The closing form. -/
def closing : Bracket → Char
  | paren => ')'
  | square => ']'
  | brace => '\x7d'
  | angle => '>'

end Bracket

namespace Token

/-- What a token is. Literals hold the text between their delimiters, with escapes as they were
written. -/
inductive Kind where
  | identifier (name : String)
  | number (text : String)
  | string (content : String)
  | character (content : String)
  /-- A lifetime or a loop label, without its leading quote. -/
  | lifetime (name : String)
  | opening (bracket : Bracket)
  | closing (bracket : Bracket)
  | comma
  | colon
  | pathSeparator
  | semicolon
  | star
  | ampersand
  | arrow
  | equals
  | question
  | dot
  | hash
  | punctuation (char : Char)
deriving DecidableEq, Repr, Inhabited

namespace Kind

/-- The name of a kind. Kinds that stand for one spelling are named by it. -/
def name : Kind → String
  | identifier _ => "identifier"
  | number _ => "number"
  | string _ => "string"
  | character _ => "char"
  | lifetime _ => "lifetime"
  | opening b => b.opening.toString
  | closing b => b.closing.toString
  | comma => ","
  | colon => ":"
  | pathSeparator => "::"
  | semicolon => ";"
  | star => "*"
  | ampersand => "&"
  | arrow => "->"
  | equals => "="
  | question => "?"
  | dot => "."
  | hash => "#"
  | punctuation _ => "punctuation"

/-- The part of a token that its kind does not fix, or nothing. -/
def payload : Kind → String
  | identifier s | number s | string s | character s | lifetime s => s
  | punctuation c => c.toString
  | _ => ""

/-- A token as text. Every string literal is shown in plain quotes, whatever its delimiters. -/
def text : Kind → String
  | identifier s | number s => s
  | string s => "\"" ++ s ++ "\""
  | character s => "'" ++ s ++ "'"
  | lifetime s => "'" ++ s
  | punctuation c => c.toString
  | k => k.name

/-- The name an identifier carries. -/
def identifier? : Kind → Option String
  | identifier s => some s
  | _ => none

/-- Is this an identifier? -/
def isIdentifier : Kind → Bool
  | identifier _ => true
  | _ => false

/-- Is this the opening bracket of a pair? -/
def opens (b : Bracket) : Kind → Bool
  | opening c => c == b
  | _ => false

/-- Is this the closing bracket of a pair? -/
def closes (b : Bracket) : Kind → Bool
  | closing c => c == b
  | _ => false

end Kind

end Token

/-- One word of a source file. -/
structure Token where
  kind : Token.Kind
  span : Span
  /-- No token before this one reaches into the line on which it starts, or it goes on to a further
  line itself. -/
  startsLine : Bool
deriving DecidableEq, Repr, Inhabited

namespace Token

/-- The line on which the token starts. -/
def line (t : Token) : Nat := t.span.line

/-- Is this the word `s`? -/
def isWord (t : Token) (s : String) : Bool :=
  match t.kind with
  | .identifier name => name == s
  | _ => false

/-- The name an identifier carries. -/
def identifier? (t : Token) : Option String := t.kind.identifier?

end Token

end ForeignModule
