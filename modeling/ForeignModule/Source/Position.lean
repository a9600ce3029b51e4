/-!
# Positions in a source text

A position is a byte offset together with the line and column it lies on. It is a function of
the text that was read before it, so nothing else in the library counts lines.

* `Position.after` reads a text and gives the position behind it;
* `endsLine` says which characters end a line.
-/

namespace ForeignModule

/-- The characters that end a line. A carriage return followed by a line feed ends one line. -/
def endsLine (c : Char) : Bool := c == '\n' || c == '\r'

/-- A place in a source text. Offsets and columns count bytes of the UTF-8 form; lines and
columns start at one. -/
structure Position where
  offset : Nat := 0
  line : Nat := 1
  column : Nat := 1
deriving DecidableEq, Repr, Inhabited

namespace Position

/-- The first column of the next line, `bytes` further on. -/
def nextLine (p : Position) (bytes : Nat) : Position :=
  { offset := p.offset + bytes, line := p.line + 1, column := 1 }

/-- The position `bytes` further on in the same line. -/
def sameLine (p : Position) (bytes : Nat) : Position :=
  { p with offset := p.offset + bytes, column := p.column + bytes }

/-- The position behind a text that starts at `p`. A carriage return, a line feed and the pair
of both count as one line end each. -/
def after (p : Position) : List Char → Position
  | [] => p
  | '\r' :: '\n' :: rest => after (p.nextLine 2) rest
  | c :: rest => after (if endsLine c then p.nextLine 1 else p.sameLine c.utf8Size) rest

end Position

/-- The stretch of source text from `start` to the byte offset `stop`. -/
structure Span where
  start : Position
  stop : Nat
deriving DecidableEq, Repr, Inhabited

namespace Span

/-- The line on which the stretch starts. -/
def line (s : Span) : Nat := s.start.line

/-- The column at which the stretch starts. -/
def column (s : Span) : Nat := s.start.column

end Span

end ForeignModule
