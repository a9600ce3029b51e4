/-!
# Characters in YAML

The classes of characters that the other parts of the reader share.
-/

namespace ForeignModule.Yaml

/-- The blanks within a line. -/
def isBlank (c : Char) : Bool := c == ' ' || c == '\t'

/-- The characters that end a line. A carriage return and a line feed end it together. -/
def isBreak (c : Char) : Bool :=
  c == '\n' || c == '\r' || c == '\x85' || c == '\u2028' || c == '\u2029'

/-- Is the text at its end, or does it go on with a blank or a line end? -/
def atGap : List Char → Bool
  | [] => true
  | c :: _ => isBlank c || isBreak c

/-- The characters that may stand in a document. -/
def isAllowed (c : Char) : Bool :=
  c == '\t' || c == '\n' || c == '\r' || (' ' ≤ c && c ≤ '~') || c == '\x85'
    || ('\xa0' ≤ c && c != '\ufffe' && c != '\uffff')

/-- Three dashes or three points that stand for themselves: the marks between documents. -/
def isDocumentMark : List Char → Bool
  | a :: b :: c :: rest => (a == '-' || a == '.') && a == b && b == c && atGap rest
  | _ => false

/-- The character that a line end is kept as. -/
def keptBreak (c : Char) : Char := if c == '\u2028' || c == '\u2029' then c else '\n'

/-- The characters of names: those of anchors, handles and directives. -/
def isNamePart (c : Char) : Bool := c.isAlphanum || c == '-' || c == '_'

end ForeignModule.Yaml
