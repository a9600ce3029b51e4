import ForeignModule.Text.Search
import ForeignModule.Token

/-!
# Segments of a source text

A source text is cut into segments one after another: blanks, comments, preprocessor lines and
tokens. Nothing is dropped here, so the segments spell out the text again.

* `scan` says what starts at a character and how far it reaches;
* `Cut.ofSource` cuts a whole text; when a literal or a comment is never closed, it keeps the rest
  of the text as it is.
-/

namespace ForeignModule

/-- What can be left open at the end of a text. -/
inductive Unclosed where
  | string
  | character
  | comment
deriving DecidableEq, Repr, Inhabited

namespace Source

/-- The characters between words. -/
def isBlank (c : Char) : Bool := c == ' ' || c == '\t' || c == '\n' || c == '\r' || c == '\x0c'

/-- The characters a word starts with. Every character outside ASCII belongs to words. -/
def isWordStart (c : Char) : Bool := c.isAlpha || c == '_' || 0x80 ≤ c.val

/-- The characters a word goes on with. -/
def isWordPart (c : Char) : Bool := c.isAlphanum || c == '_' || 0x80 ≤ c.val

/-- The hexadecimal digits. -/
def isHexDigit (c : Char) : Bool :=
  c.isDigit || ('a' ≤ c && c ≤ 'f') || ('A' ≤ c && c ≤ 'F')

/-! ## How far a segment reaches

Each of these reads the characters behind the start of a segment. -/

/-- The content of a quoted literal, given what follows its opening quote. A backslash takes the
next character with it, so an escaped quote does not close the literal. -/
def quoted? (quote : Char) : List Char → Option (List Char)
  | [] => none
  | '\\' :: [] => none
  | '\\' :: c :: rest => (quoted? quote rest).map fun content => '\\' :: c :: content
  | c :: rest => if c = quote then some [] else (quoted? quote rest).map (c :: ·)

/-- The number of characters up to the end of a block comment, given what follows its opening.
`depth` counts the comments open inside it; without nesting there are none. -/
def commentLength? (nests : Bool) (depth : Nat) : List Char → Option Nat
  | [] => none
  | [_] => none
  | a :: b :: rest =>
    if nests && a == '/' && b == '*' then (commentLength? nests (depth + 1) rest).map (· + 2)
    else if a == '*' && b == '/' then
      match depth with
      | 0 => some 2
      | depth + 1 => (commentLength? nests depth rest).map (· + 2)
    else (commentLength? nests depth (b :: rest)).map (· + 1)

/-- The length of a preprocessor line, without the line end that closes it. A backslash before a
line end carries the line on. -/
def directiveLength : List Char → Nat
  | [] => 0
  | '\\' :: '\r' :: '\n' :: rest => directiveLength rest + 3
  | '\\' :: '\r' :: rest => directiveLength rest + 2
  | '\\' :: '\n' :: rest => directiveLength rest + 2
  | c :: rest => if endsLine c then 0 else directiveLength rest + 1

/-- How many more characters belong to a number. A point belongs to it before a digit, and in C a
quote before a hexadecimal digit. -/
def numberLength (d : Dialect) : List Char → Nat
  | [] => 0
  | c :: rest =>
    if isWordPart c
        || (c == '.' && rest.head?.any Char.isDigit)
        || (c == '\'' && d == .c && rest.head?.any isHexDigit) then
      numberLength d rest + 1
    else 0

/-- The number of `#` between the `r` of a raw string and its quote, given what follows the `r`. -/
def rawHashes? (rest : List Char) : Option Nat :=
  let hashes := (rest.takeWhile (· == '#')).length
  if (rest.drop hashes).head? = some '"' then some hashes else none

/-- The content of a raw string with `hashes` marks, given what follows its `r`. -/
def raw? (hashes : Nat) (rest : List Char) : Option (List Char) :=
  Text.before? ('"' :: List.replicate hashes '#') (rest.drop (hashes + 1))

/-! ## What starts at a character -/

/-- What a segment is. -/
inductive Role where
  | blank
  | lineComment
  | blockComment
  | directive
  /-- The letter before the quote of a byte string. -/
  | bytePrefix
  | token (kind : Token.Kind)
deriving DecidableEq, Repr, Inhabited

/-- The role of a segment and the number of characters that follow its first one. -/
abbrev Reach := Role × Nat

/-- A token of one character. -/
def single (kind : Token.Kind) : Except Unclosed Reach := .ok (.token kind, 0)

/-- A quoted literal, given what follows its opening quote. -/
def scanQuoted (quote : Char) (open? : Unclosed) (kind : String → Token.Kind) (rest : List Char) :
    Except Unclosed Reach :=
  match quoted? quote rest with
  | some content => .ok (.token (kind (.ofList content)), content.length + 1)
  | none => .error open?

/-- A string, given what follows its first quote. Kotlin has strings in three quotes without
escapes. -/
def scanString (d : Dialect) (rest : List Char) : Except Unclosed Reach :=
  match d, rest with
  | .kotlin, '"' :: '"' :: inner =>
    match Text.before? ['"', '"', '"'] inner with
    | some content => .ok (.token (.string (.ofList content)), content.length + 5)
    | none => .error .string
  | _, _ => scanQuoted '"' .string .string rest

/-- A raw string with `hashes` marks, given what follows its `r`. -/
def scanRaw (hashes : Nat) (rest : List Char) : Except Unclosed Reach :=
  match raw? hashes rest with
  | some content => .ok (.token (.string (.ofList content)), content.length + 2 * hashes + 2)
  | none => .error .string

/-- A character literal or a lifetime, given what follows the quote. In Rust a quote before a word
is a lifetime, unless a second quote comes right after the first letter. -/
def scanQuote (d : Dialect) (rest : List Char) : Except Unclosed Reach :=
  if d == .rust && rest.head?.any isWordStart && rest.tail.head? != some '\'' then
    let name := rest.takeWhile isWordPart
    .ok (.token (.lifetime (.ofList name)), name.length)
  else scanQuoted '\'' .character .character rest

/-- A word, given its first character and what follows. -/
def scanWord (c : Char) (rest : List Char) : Except Unclosed Reach :=
  let tail := rest.takeWhile isWordPart
  .ok (.token (.identifier (.ofList (c :: tail))), tail.length)

/-- A number, given its first digit and what follows. -/
def scanNumber (d : Dialect) (c : Char) (rest : List Char) : Except Unclosed Reach :=
  let length := numberLength d rest
  .ok (.token (.number (.ofList (c :: rest.take length))), length)

/-- What starts with a letter: in Rust perhaps a raw or a byte string, else a word. -/
def scanLetter (d : Dialect) (c : Char) (rest : List Char) : Except Unclosed Reach :=
  match d, c, rest with
  | .rust, 'r', _ =>
    match rawHashes? rest with
    | some hashes => scanRaw hashes rest
    | none => scanWord c rest
  | .rust, 'b', 'r' :: inner =>
    match rawHashes? inner with
    | some hashes => (scanRaw hashes inner).map fun (role, length) => (role, length + 1)
    | none => scanWord c rest
  | .rust, 'b', '"' :: _ => .ok (.bytePrefix, 0)
  | _, _, _ => scanWord c rest

/-- The token that starts at `c`. -/
def scanToken (d : Dialect) (c : Char) (rest : List Char) : Except Unclosed Reach :=
  match c with
  | '(' => single (.opening .paren)
  | ')' => single (.closing .paren)
  | '\x7b' => single (.opening .brace)
  | '\x7d' => single (.closing .brace)
  | '[' => single (.opening .square)
  | ']' => single (.closing .square)
  | '<' => single (.opening .angle)
  | '>' => single (.closing .angle)
  | ',' => single .comma
  | ';' => single .semicolon
  | '*' => single .star
  | '&' => single .ampersand
  | '=' => single .equals
  | '?' => single .question
  | '.' => single .dot
  | '#' => single .hash
  | ':' => if rest.head? = some ':' then .ok (.token .pathSeparator, 1) else single .colon
  | '-' => if rest.head? = some '>' then .ok (.token .arrow, 1) else single (.punctuation '-')
  | '"' => scanString d rest
  | '\'' => scanQuote d rest
  | _ =>
    if d == .kotlin && c == '\x60' then scanQuoted '\x60' .string .identifier rest
    else if isWordStart c then scanLetter d c rest
    else if c.isDigit then scanNumber d c rest
    else single (.punctuation c)

/-- The segment that starts at `c`, where `fresh` says that no token lies on the line so far. Only
then does a `#` start a preprocessor line. -/
def scan (d : Dialect) (fresh : Bool) (c : Char) (rest : List Char) : Except Unclosed Reach :=
  if isBlank c then .ok (.blank, (rest.takeWhile isBlank).length)
  else if c == '/' && rest.head? == some '/' then
    .ok (.lineComment, (rest.takeWhile (!endsLine ·)).length)
  else if c == '/' && rest.head? == some '*' then
    match commentLength? (d != .c) 0 rest.tail with
    | some length => .ok (.blockComment, length + 1)
    | none => .error .comment
  else if c == '#' && d == .c && fresh then .ok (.directive, directiveLength rest)
  else scanToken d c rest

end Source

/-- A stretch of source text that belongs together. -/
structure Segment where
  role : Source.Role
  text : List Char
deriving DecidableEq, Repr, Inhabited

namespace Segment

/-- Does the segment reach into a further line? -/
def breaksLine (s : Segment) : Bool := s.text.any endsLine

/-- Whether the line is still without a token behind the segment. Line ends in a token do not
count: the line it ends on holds a token. -/
def leavesFresh (fresh : Bool) (s : Segment) : Bool :=
  match s.role with
  | .token _ => false
  | _ => fresh || s.breaksLine

end Segment

/-- A text cut into segments. -/
structure Cut where
  segments : List Segment
  /-- What is never closed, with the text from its opening on. -/
  unclosed? : Option (Unclosed × List Char)
deriving Repr, Inhabited

namespace Cut

/-- Cuts a text. The first `skip` characters already belong to the segment before. -/
def go (d : Dialect) (fresh : Bool) (skip : Nat) : List Char → Cut
  | [] => { segments := [], unclosed? := none }
  | c :: rest =>
    match skip with
    | skip + 1 => go d fresh skip rest
    | 0 =>
      match Source.scan d fresh c rest with
      | .error what => { segments := [], unclosed? := some (what, c :: rest) }
      | .ok (role, length) =>
        let segment : Segment := { role, text := c :: rest.take length }
        let cut := go d (segment.leavesFresh fresh) length rest
        { cut with segments := segment :: cut.segments }

/-- Cuts a source text. -/
def ofSource (d : Dialect) (source : List Char) : Cut := go d true 0 source

/-- The text that the segments take up. -/
def text (cut : Cut) : List Char := cut.segments.flatMap Segment.text

end Cut

end ForeignModule
