import ForeignModule.Proofs.Bounds.Reader

/-!
# The tokenizer, byte by byte

A tokenizer that goes through a text by byte offsets. It looks at single bytes, goes on over them in loops, and
takes the text of a word or a literal from between two offsets; each of these can leave the text or cut a
character, and no loop is bounded. `Scanner.tokenize` is the whole of it, as a program that may stop at a trap or
go on forever.

Each loop has its body as a definition of its own.
-/

namespace ForeignModule.Bounds.Scanner

open Source Token

variable (d : Dialect) (bytes : List UInt8)

/-- A token of signs. -/
def sign (kind : Kind) (length : Nat) (s : Reader) : Reader := (s.advance bytes length).emit kind s.position

/-! ## Comments and preprocessor lines -/

def whileRound (p : Char → Bool) (s : Reader) : Run (Reader ⊕ Reader) :=
  match s.peek bytes 0 with
  | some b => pure (if p b then .inl (s.step bytes) else .inr s)
  | none => pure (.inr s)

/-- Goes on over the bytes of a kind. -/
def skipWhile (p : Char → Bool) : Reader → Run Reader := loop (whileRound bytes p)

/-- Goes on to the end of the line. -/
def skipLine : Reader → Run Reader := skipWhile bytes (!endsLine ·)

def directiveRound (s : Reader) : Run (Reader ⊕ Reader) :=
  match s.peek bytes 0 with
  | some b =>
    if b = '\\' ∧ (s.peek bytes 1).any endsLine then pure (.inl (s.advance bytes 2))
    else pure (if endsLine b then .inr s else .inl (s.step bytes))
  | none => pure (.inr s)

/-- Goes on to the end of a preprocessor line. -/
def skipDirective : Reader → Run Reader := loop (directiveRound bytes)

def commentRound (start : Position) : Nat × Reader → Run (Nat × Reader ⊕ Reader)
  | (depth, s) =>
    if s.isAtEnd bytes then pure (.inr (s.fail .comment start))
    else if s.peek bytes 0 = some '/' ∧ s.peek bytes 1 = some '*' ∧ (d ≠ .c ∨ depth = 0) then
      pure (.inl (depth + 1, s.advance bytes 2))
    else if s.peek bytes 0 = some '*' ∧ s.peek bytes 1 = some '/' then do
      let depth ← minus depth 1
      pure (if depth = 0 then .inr (s.advance bytes 2) else .inl (depth, s.advance bytes 2))
    else pure (.inl (depth, s.step bytes))

/-- Goes on behind a block comment. -/
def skipComment (s : Reader) : Run Reader := loop (commentRound d bytes s.position) (0, s)

/-! ## Literals -/

def quotedRound (quote : Char) (start : Nat) (s : Reader) : Run (Reader ⊕ Option String × Reader) :=
  match s.peek bytes 0 with
  | some b =>
    if b = '\\' then pure (.inl (s.advance bytes 2))
    else if b = quote then do
      let content ← slice bytes start s.position.offset
      pure (.inr (some content, s.step bytes))
    else pure (.inl (s.step bytes))
  | none => pure (.inr (none, s))

/-- Reads a literal from its opening quote on. -/
def readQuoted (quote : Char) (s : Reader) : Run (Option String × Reader) :=
  loop (quotedRound bytes quote (s.step bytes).position.offset) (s.step bytes)

def rawRound (closing : List Char) (start : Nat) (s : Reader) : Run (Reader ⊕ Option String × Reader) :=
  if s.isAtEnd bytes then pure (.inr (none, s))
  else do
    let ahead ← part bytes s.position.offset bytes.length
    if closing.isPrefixOf (ahead.map Char.ofUInt8) then do
      let content ← slice bytes start s.position.offset
      pure (.inr (some content, s.advance bytes closing.length))
    else pure (.inl (s.step bytes))

/-- Reads a literal without escapes, from behind its opening on. -/
def readRaw (closing : List Char) (s : Reader) : Run (Option String × Reader) :=
  loop (rawRound bytes closing s.position.offset) s

/-- The token of a literal that has been read, or the error that it is not closed. -/
def finish (kind : String → Kind) (what : Unclosed) (start : Position) : Option String × Reader → Reader
  | (some content, s) => s.emit (kind content) start
  | (none, s) => s.fail what start

def lexString (s : Reader) : Run Reader :=
  finish .string .string s.position <$>
    if d = .kotlin ∧ s.peek bytes 1 = some '"' ∧ s.peek bytes 2 = some '"' then
      readRaw bytes ['"', '"', '"'] (s.advance bytes 3)
    else readQuoted bytes '"' s

def hashRound (first : Nat) (s : Reader) (hashes : Nat) : Run (Nat ⊕ Nat) :=
  pure (if s.peek bytes (first + hashes) = some '#' then .inl (hashes + 1) else .inr hashes)

/-- A raw string of Rust, if one stands here. -/
def rawString? (s : Reader) : Run (Option Reader) := do
  let mark := if s.peek bytes 0 = some 'b' then 1 else 0
  if s.peek bytes mark ≠ some 'r' then pure none
  else
    let hashes ← loop (hashRound bytes (mark + 1) s) 0
    if s.peek bytes (mark + 1 + hashes) ≠ some '"' then pure none
    else
      let closing := '"' :: List.replicate hashes '#'
      let read ← readRaw bytes closing (s.advance bytes (mark + 2 + hashes))
      pure (some (finish .string .string s.position read))

/-! ## Words and numbers -/

def skipWord : Reader → Run Reader := skipWhile bytes isWordPart

/-- A character literal or a lifetime. Whether a quote closes the first character is seen by how many bytes that
takes. -/
def lexQuote (s : Reader) : Run Reader := do
  let ahead ← slice bytes (s.position.offset + 1) bytes.length
  let size := (ahead.toList.head?.map Char.utf8Size).getD 1
  if d = .rust ∧ (s.peek bytes 1).any isWordStart ∧ s.peek bytes (1 + size) ≠ some '\'' then
    let t ← skipWord bytes (s.step bytes)
    let name ← slice bytes (s.step bytes).position.offset t.position.offset
    pure (t.emit (.lifetime name) s.position)
  else finish .character .character s.position <$> readQuoted bytes '\'' s

def lexWord (s : Reader) : Run Reader := do
  let t ← skipWord bytes s
  let word ← slice bytes s.position.offset t.position.offset
  pure (t.emit (.identifier word) s.position)

def numberRound (s : Reader) : Run (Reader ⊕ Reader) :=
  match s.peek bytes 0 with
  | some b =>
    pure (if isWordPart b ∨ b = '.' ∧ (s.peek bytes 1).any Char.isDigit
        ∨ b = '\'' ∧ d = .c ∧ (s.peek bytes 1).any isHexDigit then .inl (s.step bytes)
      else .inr s)
  | none => pure (.inr s)

def lexNumber (s : Reader) : Run Reader := do
  let t ← loop (numberRound d bytes) s
  let text ← slice bytes s.position.offset t.position.offset
  pure (t.emit (.number text) s.position)

/-! ## Tokens -/

/-- A sign that no grammar knows. It takes one column. -/
def lexOther (s : Reader) : Run Reader := do
  let ahead ← slice bytes s.position.offset bytes.length
  let c := ahead.toList.head?.getD '\ufffd'
  let position := { s.position with offset := s.position.offset + c.utf8Size, column := s.position.column + 1 }
  pure (({ s with position } : Reader).emit (.punctuation c) s.position)

/-- What starts with a letter, a digit or any other sign. -/
def lexRest (b : Char) (s : Reader) : Run Reader := do
  let raw? ← if d = .rust ∧ (b = 'b' ∨ b = 'r') then rawString? bytes s else pure none
  match raw? with
  | some t => pure t
  | none =>
    if d = .rust ∧ b = 'b' ∧ s.peek bytes 1 = some '"' then lexString d bytes (s.step bytes)
    else if isWordStart b then lexWord bytes s
    else if b.isDigit then lexNumber d bytes s
    else lexOther bytes s

/-- The token that starts with the byte `b`. -/
def lexToken (b : Char) (s : Reader) : Run Reader :=
  match b with
  | '(' => pure (sign bytes (.opening .paren) 1 s)
  | ')' => pure (sign bytes (.closing .paren) 1 s)
  | '\x7b' => pure (sign bytes (.opening .brace) 1 s)
  | '\x7d' => pure (sign bytes (.closing .brace) 1 s)
  | '[' => pure (sign bytes (.opening .square) 1 s)
  | ']' => pure (sign bytes (.closing .square) 1 s)
  | '<' => pure (sign bytes (.opening .angle) 1 s)
  | '>' => pure (sign bytes (.closing .angle) 1 s)
  | ',' => pure (sign bytes .comma 1 s)
  | ';' => pure (sign bytes .semicolon 1 s)
  | '*' => pure (sign bytes .star 1 s)
  | '&' => pure (sign bytes .ampersand 1 s)
  | '=' => pure (sign bytes .equals 1 s)
  | '?' => pure (sign bytes .question 1 s)
  | '.' => pure (sign bytes .dot 1 s)
  | '#' => pure (sign bytes .hash 1 s)
  | ':' =>
    pure (if s.peek bytes 1 = some ':' then sign bytes .pathSeparator 2 s else sign bytes .colon 1 s)
  | '-' =>
    pure (if s.peek bytes 1 = some '>' then sign bytes .arrow 2 s else sign bytes (.punctuation '-') 1 s)
  | '"' => lexString d bytes s
  | '\'' => lexQuote d bytes s
  | _ =>
    if d = .kotlin ∧ b = '\x60' then finish .identifier .string s.position <$> readQuoted bytes '\x60' s
    else lexRest d bytes b s

/-- One round of the tokenizer: a blank, a comment, a preprocessor line or a token. -/
def round (s : Reader) : Run (Reader ⊕ Reader) :=
  match s.peek bytes 0 with
  | none => pure (.inr s)
  | some b =>
    .inl <$>
      if isBlank b then pure (s.step bytes)
      else if b = '/' ∧ s.peek bytes 1 = some '/' then skipLine bytes s
      else if b = '/' ∧ s.peek bytes 1 = some '*' then skipComment d bytes s
      else if b = '#' ∧ d = .c ∧ s.lineHasToken = false then skipDirective bytes s
      else lexToken d bytes b s

/-- The tokens of a text, or the first error. -/
def tokenize (source : String) : Run (Except UnclosedError (List Token)) := do
  let s ← loop (round d (Text.bytes source)) {}
  match s.errors.head? with
  | none => pure (.ok s.tokens)
  | some e => pure (.error e)

end ForeignModule.Bounds.Scanner
