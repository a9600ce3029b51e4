import ForeignModule.Yaml.Scalar
import ForeignModule.Yaml.Tag

/-!
# The layout of a YAML text

In block context the structure of a document is given by indentation. Here it is made explicit: the
text becomes a list of tokens in which every collection has a start and an end.

A mapping key shows only by the colon behind it. So the start of a token that may be a key is kept
as a candidate, and a colon puts the key mark, and perhaps the start of a mapping, before it.
-/

namespace ForeignModule.Yaml

/-- The marks and scalars of a document. -/
inductive Token where
  | directive (d : Directive)
  | documentStart
  | documentEnd
  | blockSequence
  | blockMapping
  | blockEnd
  | flowSequence
  | flowSequenceEnd
  | flowMapping
  | flowMappingEnd
  | flowEntry
  | blockEntry
  | key
  | value
  | anchor (name : String)
  | alias (name : String)
  | tag (t : Tag.Written)
  | scalar (style : Style) (text : String)
deriving DecidableEq, Repr, Inhabited

/-- A token that may turn out to be a key. -/
structure Candidate where
  /-- Nothing else than a key can stand there. -/
  required : Bool
  /-- The number of tokens before it. -/
  position : Nat
  line : Nat
  column : Nat
  index : Nat
deriving Repr, Inhabited

/-- How far a text has been laid out. -/
structure Layout where
  /-- The tokens so far, last one first. -/
  tokens : List Token := []
  /-- Their number. -/
  count : Nat := 0
  /-- The column of the innermost block collection; outside all of them it is less than zero. -/
  indent : Int := -1
  /-- The columns of the collections around it. -/
  outer : List Int := []
  /-- The candidates, one for the block context and one for each open flow collection. -/
  candidates : List (Option Candidate) := [none]
  /-- May the next token be a key? -/
  keyAllowed : Bool := true
  line : Nat := 0
  column : Nat := 0
  index : Nat := 0
deriving Repr, Inhabited

namespace Layout

/-- Is a flow collection open? -/
def inFlow (s : Layout) : Bool :=
  match s.candidates with
  | _ :: _ :: _ => true
  | _ => false

/-- Adds a token. -/
def add (s : Layout) (t : Token) : Layout :=
  { s with tokens := t :: s.tokens, count := s.count + 1 }

/-- Puts a token behind the first `position` tokens. -/
def insert (s : Layout) (position : Nat) (t : Token) : Layout :=
  let later := s.count - position
  { s with tokens := s.tokens.take later ++ t :: s.tokens.drop later, count := s.count + 1 }

/-- The state behind characters that have been read. A line feed that belongs to a carriage return
ends no further line. -/
def advance (s : Layout) : List Char → Layout
  | [] => s
  | '\r' :: '\n' :: rest =>
    advance { s with line := s.line + 1, column := 0, index := s.index + 2 } rest
  | c :: rest =>
    if isBreak c then advance { s with line := s.line + 1, column := 0, index := s.index + 1 } rest
    else advance { s with column := s.column + 1, index := s.index + 1 } rest

/-- Drops the candidate of the current context. One that has to be a key must not be dropped. -/
def dropCandidate (s : Layout) : Option Layout :=
  match s.candidates with
  | some k :: rest => if k.required then none else some { s with candidates := none :: rest }
  | _ => some s

/-- Drops the candidate of the current context if it is too far back: a key lies within one line and
1024 characters. What is too far back stays so, so that the other candidates can wait until their
contexts are the current ones. -/
def dropStale (s : Layout) : Option Layout :=
  match s.candidates with
  | some k :: _ =>
    if k.line < s.line || k.index + 1024 < s.index then s.dropCandidate else some s
  | _ => some s

/-- Makes the token that comes next a candidate, if a key may stand there. -/
def markCandidate (s : Layout) : Option Layout :=
  if s.keyAllowed then do
    let s ← s.dropCandidate
    let k : Candidate :=
      { required := !s.inFlow && s.indent == s.column, position := s.count
        line := s.line, column := s.column, index := s.index }
    pure { s with candidates := some k :: s.candidates.tail }
  else some s

/-- Opens a block collection at a column right of the innermost one; its start goes behind the
first `position` tokens. -/
def openBlock (s : Layout) (column position : Nat) (start : Token) : Layout :=
  if !s.inFlow && s.indent < column then
    { s.insert position start with indent := column, outer := s.indent :: s.outer }
  else s

/-- Ends the block collections right of a column, given the columns around the innermost one. -/
def closeBlocks (column : Int) (s : Layout) : List Int → Layout
  | [] => s
  | previous :: outer =>
    if column < s.indent then
      closeBlocks column { s.add .blockEnd with indent := previous, outer } outer
    else s

/-- Ends the block collections right of a column. In flow context indentation says nothing. -/
def closeRightOf (s : Layout) (column : Int) : Layout :=
  if s.inFlow then s else closeBlocks column s s.outer

/-! ## Tokens

Each of these adds the token at the front of a text, and says how many characters it takes up. -/

/-- A mark between documents. It ends all block collections. -/
def documentMark (s : Layout) (t : Token) : Option (Layout × Nat) := do
  let s ← (s.closeRightOf (-1)).dropCandidate
  pure ({ s.add t with keyAllowed := false }, 3)

/-- A directive before a document. It ends all block collections. -/
def directive (s : Layout) (rest : List Char) : Option (Layout × Nat) := do
  let s ← (s.closeRightOf (-1)).dropCandidate
  let (d, taken) ← Directive.scan rest
  pure ({ s.add (.directive d) with keyAllowed := false }, taken + 1)

/-- The start of a flow collection, which may itself be a key. -/
def openFlow (s : Layout) (t : Token) : Option (Layout × Nat) := do
  let s ← s.markCandidate
  pure ({ s.add t with candidates := none :: s.candidates, keyAllowed := true }, 1)

/-- The end of a flow collection. -/
def closeFlow (s : Layout) (t : Token) : Option (Layout × Nat) := do
  let s ← s.dropCandidate
  let candidates := if s.inFlow then s.candidates.tail else s.candidates
  pure ({ s.add t with candidates, keyAllowed := false }, 1)

/-- A comma in a flow collection. -/
def entry (s : Layout) : Option (Layout × Nat) := do
  let s ← s.dropCandidate
  pure ({ s.add .flowEntry with keyAllowed := true }, 1)

/-- A dash before an item of a block sequence. -/
def dash (s : Layout) : Option (Layout × Nat) := do
  guard (s.inFlow || s.keyAllowed)
  let s ← (s.openBlock s.column s.count .blockSequence).dropCandidate
  pure ({ s.add .blockEntry with keyAllowed := true }, 1)

/-- A question mark before a key. -/
def question (s : Layout) : Option (Layout × Nat) := do
  guard (s.inFlow || s.keyAllowed)
  let s ← (s.openBlock s.column s.count .blockMapping).dropCandidate
  pure ({ s.add .key with keyAllowed := !s.inFlow }, 1)

/-- A colon behind a key. -/
def colon (s : Layout) : Option (Layout × Nat) :=
  match s.candidates with
  | some k :: rest =>
    let s := (s.insert k.position .key).openBlock k.column k.position .blockMapping
    some ({ s.add .value with candidates := none :: rest, keyAllowed := false }, 1)
  | _ => do
    guard (s.inFlow || s.keyAllowed)
    let s := s.openBlock s.column s.count .blockMapping
    pure ({ s.add .value with keyAllowed := !s.inFlow }, 1)

/-- The name of an anchor. Something that cannot belong to a word has to follow it. -/
def anchorName? (rest : List Char) : Option String :=
  let name := rest.takeWhile isNamePart
  let behind := rest.drop name.length
  if !name.isEmpty && (atGap behind
      || behind.head?.any ['?', ':', ',', ']', '\x7d', '%', '@', '\x60'].contains) then
    some (.ofList name)
  else none

/-- An anchor or an alias. -/
def named (s : Layout) (t : String → Token) (rest : List Char) : Option (Layout × Nat) := do
  let s ← s.markCandidate
  let name ← anchorName? rest
  pure ({ s.add (t name) with keyAllowed := false }, name.length + 1)

/-- A tag. -/
def tag (s : Layout) (rest : List Char) : Option (Layout × Nat) := do
  let s ← s.markCandidate
  let (t, taken) ← Tag.Written.scan s.inFlow rest
  pure ({ s.add (.tag t) with keyAllowed := false }, taken + 1)

/-- A scalar that may be a key. -/
def scalar (s : Layout) (style : Style) (quotes : Nat) (scan? : Layout → Option Scan) :
    Option (Layout × Nat) := do
  let s ← s.markCandidate
  let scan ← scan? s
  pure ({ s.add (.scalar style scan.text) with keyAllowed := scan.endsLine }, scan.taken + quotes)

/-- A scalar that keeps its lines, and is no key. -/
def blockScalar (s : Layout) (style : Style) (rest : List Char) : Option (Layout × Nat) := do
  guard !s.inFlow
  let s ← s.dropCandidate
  let scan ← scanBlock (style == .folded) s.indent rest
  pure ({ s.add (.scalar style scan.text) with keyAllowed := true }, scan.taken + 1)

/-- The characters that mean something else where a scalar may start. -/
def indicators : List Char :=
  ['-', '?', ':', ',', '[', ']', '\x7b', '\x7d', '#', '&', '*', '!', '|', '>', '\'', '"', '%',
    '@', '\x60', '\t']

/-- May a plain scalar start like this? -/
def startsPlain (flow : Bool) (c : Char) (rest : List Char) : Bool :=
  !indicators.contains c
    || (c == '-' && !rest.head?.any isBlank)
    || (!flow && (c == '?' || c == ':') && !atGap rest)

/-- Adds the token that starts at a character. -/
def token (s : Layout) (c : Char) (rest : List Char) : Option (Layout × Nat) :=
  let plain :=
    if startsPlain s.inFlow c rest then
      s.scalar .plain 0 fun s => scanPlain s.inFlow (s.indent + 1) s.column (c :: rest)
    else none
  if s.column == 0 && c == '%' then s.directive rest
  else if s.column == 0 && isDocumentMark (c :: rest) then
    s.documentMark (if c == '-' then .documentStart else .documentEnd)
  else
    match c with
    | '[' => s.openFlow .flowSequence
    | '\x7b' => s.openFlow .flowMapping
    | ']' => s.closeFlow .flowSequenceEnd
    | '\x7d' => s.closeFlow .flowMappingEnd
    | ',' => s.entry
    | '-' => if atGap rest then s.dash else plain
    | '?' => if s.inFlow || atGap rest then s.question else plain
    | ':' => if s.inFlow || atGap rest then s.colon else plain
    | '*' => s.named .alias rest
    | '&' => s.named .anchor rest
    | '!' => s.tag rest
    | '|' => s.blockScalar .literal rest
    | '>' => s.blockScalar .folded rest
    | '\'' => s.scalar .quoted 1 fun s => scanQuoted '\'' (s.column + 1) rest
    | '"' => s.scalar .quoted 1 fun s => scanQuoted '"' (s.column + 1) rest
    | _ => plain

/-- Lays out a text, of which the first `skip` characters have been read. Blanks and comments are
passed over; a tab is no blank where a key may start, because then it could be indentation. A byte
order mark is passed over at the start of a line. -/
def run (s : Layout) (skip : Nat) : List Char → Option Layout
  | [] => some s
  | c :: rest =>
    match skip with
    | skip + 1 => run s skip rest
    | 0 =>
      if c == ' ' || (c == '\t' && (s.inFlow || !s.keyAllowed))
          || (c == '\ufeff' && s.column == 0) then run (s.advance [c]) 0 rest
      else if c == '#' then
        let comment := rest.takeWhile (!isBreak ·)
        run (s.advance (c :: comment)) comment.length rest
      else if isBreak c then
        let more := if c == '\r' && rest.head? == some '\n' then ['\n'] else []
        let s := s.advance (c :: more)
        run (if s.inFlow then s else { s with keyAllowed := true }) more.length rest
      else
        match (s.dropStale.map fun s => s.closeRightOf s.column).bind (·.token c rest) with
        | none => none
        | some (added, taken) =>
          run (added.advance (c :: rest.take (taken - 1))) (taken - 1) rest

/-- The tokens of a text, with all block collections ended. -/
def tokens? (text : List Char) : Option (List Token) := do
  guard (text.all isAllowed)
  let s ← run {} 0 text
  let s ← (s.closeRightOf (-1)).dropCandidate
  pure s.tokens.reverse

end Layout

end ForeignModule.Yaml
