import ForeignModule.Number.Decimal
import ForeignModule.Yaml.Character

/-!
# Scalars in YAML

How far a scalar reaches in the text. Inside a scalar a line end with the blanks around it counts as
one blank; each further line end stays one.

`scanPlain` and `scanQuoted` read the scalars of one style each, and `scanBlock` those that keep
their lines.
-/

namespace ForeignModule.Yaml

/-- How a scalar is written. -/
inductive Style where
  | plain
  | quoted
  /-- On lines of its own, which it keeps. -/
  | literal
  /-- On lines of its own, which are joined. -/
  | folded
deriving DecidableEq, Repr, Inhabited

/-! ## What stands between two words of a scalar -/

/-- The blanks and line ends read since the last word. -/
inductive Gap where
  | nothing
  /-- Blanks within a line, last one first. -/
  | blanks (run : List Char)
  /-- Line ends: the first one, unless it is escaped, and the further ones, last one first. -/
  | lines (first : Option Char) (more : List Char)
deriving Repr, Inhabited

namespace Gap

/-- One more blank. Blanks at the end or the start of a line are dropped. -/
def addBlank (c : Char) : Gap → Gap
  | nothing => blanks [c]
  | blanks run => blanks (c :: run)
  | lines first more => lines first more

/-- One more line end. -/
def addBreak (c : Char) : Gap → Gap
  | lines first more => lines first (keptBreak c :: more)
  | _ => lines (some (keptBreak c)) []

/-- Have line ends been read? -/
def hasBreak : Gap → Bool
  | lines _ _ => true
  | _ => false

/-- Puts what the gap stands for behind a text. Both are given last character first. -/
def fold (text : List Char) : Gap → List Char
  | nothing => text
  | blanks run => run ++ text
  | lines (some '\n') [] => ' ' :: text
  | lines (some '\n') more => more ++ text
  | lines (some c) more => more ++ c :: text
  | lines none more => more ++ text

end Gap

/-- A scalar that has been read: its text, the number of characters it takes up, and whether it
ends behind a line end. -/
structure Scan where
  text : String
  taken : Nat
  endsLine : Bool
deriving Repr, Inhabited

/-! ## Plain scalars -/

/-- Reads a plain scalar. In block context it ends where a line starts left of `indent`; in flow
context the marks of flow collections end it. `text` holds what has been read, last character
first. -/
def scanPlainFrom (flow : Bool) (indent : Int) (column taken : Nat) (text : List Char)
    (gap : Gap) : List Char → Option Scan
  | [] => some ⟨.ofList text.reverse, taken, gap.hasBreak⟩
  | c :: rest =>
    if isBlank c then
      if gap.hasBreak && column < indent && c == '\t' then none
      else scanPlainFrom flow indent (column + 1) (taken + 1) text (gap.addBlank c) rest
    else if isBreak c then
      let gap := if c == '\r' && rest.head? == some '\n' then gap else gap.addBreak c
      scanPlainFrom flow indent 0 (taken + 1) text gap rest
    else
      let behindGap := match gap with
        | .nothing => false
        | _ => true
      let leaves := behindGap && ((!flow && column < indent) || c == '#'
        || (column == 0 && isDocumentMark (c :: rest)))
      if !leaves && flow && c == ':'
          && rest.head?.any [',', '?', '[', ']', '\x7b', '\x7d'].contains then none
      else if leaves || (c == ':' && atGap rest)
          || (flow && [',', '[', ']', '\x7b', '\x7d'].contains c) then
        some ⟨.ofList text.reverse, taken, gap.hasBreak⟩
      else scanPlainFrom flow indent (column + 1) (taken + 1) (c :: gap.fold text) .nothing rest

/-- Reads the plain scalar at the front of a text. -/
def scanPlain (flow : Bool) (indent : Int) (column : Nat) (text : List Char) : Option Scan :=
  scanPlainFrom flow indent column 0 [] .nothing text

/-! ## Quoted scalars -/

/-- The characters that an escape stands for by itself. -/
def escapes : List (Char × Char) :=
  [('0', '\x00'), ('a', '\x07'), ('b', '\x08'), ('t', '\t'), ('\t', '\t'), ('n', '\n'),
    ('v', '\x0b'), ('f', '\x0c'), ('r', '\r'), ('e', '\x1b'), (' ', ' '), ('"', '"'), ('/', '/'),
    ('\\', '\\'), ('N', '\x85'), ('_', '\xa0'), ('L', '\u2028'), ('P', '\u2029')]

/-- The number of digits behind an escape that gives a code point. -/
def escapeDigits? : Char → Option Nat
  | 'x' => some 2
  | 'u' => some 4
  | 'U' => some 8
  | _ => none

/-- The character of an escape, and how many characters the escape takes up behind its first
letter. -/
def escape? (c : Char) (rest : List Char) : Option (Char × Nat) :=
  match escapes.lookup c with
  | some meant => some (meant, 0)
  | none => do
    let count ← escapeDigits? c
    let digits := rest.take count
    guard (digits.length = count)
    let n ← Number.digits? 16 digits
    guard n.isValidChar
    pure (Char.ofNat n, count)

/-- Reads a scalar in quotes, given what follows the opening quote. A single quote is written
twice inside single quotes; backslashes escape inside double quotes. `skip` characters have been
read already. -/
def scanQuotedFrom (quote : Char) (skip column taken : Nat) (text : List Char) (gap : Gap) :
    List Char → Option Scan
  | [] => none
  | c :: rest =>
    match skip with
    | skip + 1 =>
      scanQuotedFrom quote skip (if isBreak c then 0 else column + 1) (taken + 1) text gap rest
    | 0 =>
      if isBlank c then
        scanQuotedFrom quote 0 (column + 1) (taken + 1) text (gap.addBlank c) rest
      else if isBreak c then
        let gap := if c == '\r' && rest.head? == some '\n' then gap else gap.addBreak c
        scanQuotedFrom quote 0 0 (taken + 1) text gap rest
      else if column == 0 && isDocumentMark (c :: rest) then none
      else
        let before := gap.fold text
        let next := fun (skip : Nat) (c : Char) =>
          scanQuotedFrom quote skip (column + 1) (taken + 1) (c :: before) .nothing rest
        if c = quote then
          if quote = '\'' ∧ rest.head? = some '\'' then next 1 '\''
          else some ⟨.ofList before.reverse, taken + 1, false⟩
        else if quote = '"' ∧ c = '\\' then
          match rest with
          | [] => none
          | d :: more =>
            if d = '\r' ∧ more.head? = some '\n' then
              scanQuotedFrom quote 2 0 (taken + 1) before (.lines none []) rest
            else if isBreak d then
              scanQuotedFrom quote 1 0 (taken + 1) before (.lines none []) rest
            else
              match escape? d more with
              | some (meant, digits) => next (digits + 1) meant
              | none => none
        else next 0 c

/-- Reads the quoted scalar whose opening quote stands before a text. -/
def scanQuoted (quote : Char) (column : Nat) (text : List Char) : Option Scan :=
  scanQuotedFrom quote 0 column 0 [] .nothing text

/-! ## Scalars that keep their lines -/

/-- Does a line with content start left of a column? A tab may be meant as indentation, so that it
is no content here. -/
def startsLeftOf (column : Nat) (text : List Char) : Bool :=
  let spaces := ((text.take column).takeWhile (· == ' ')).length
  spaces < column && (text.drop spaces).head?.any fun c => !(c == '\t' || isBreak c)

/-- Cuts a text into lines, up to the first with content left of a column. Each line has its
characters, and those of its end. `fresh` says whether the text is at the start of a line. -/
def linesOf (column : Nat) (fresh : Bool) : List Char → List (List Char × List Char)
  | [] => []
  | '\r' :: '\n' :: rest => ([], ['\r', '\n']) :: linesOf column true rest
  | c :: rest =>
    if fresh && startsLeftOf column (c :: rest) then []
    else if isBreak c then ([], [c]) :: linesOf column true rest
    else
      match linesOf column false rest with
      | [] => [([c], [])]
      | (line, stop) :: more => (c :: line, stop) :: more

/-- What becomes of the line ends behind the last line. -/
inductive Chomping where
  | strip
  | clip
  | keep
deriving DecidableEq, Repr, Inhabited

/-- The marks behind the sign of a block scalar: chomping and indentation, in either order, and
each at most once. -/
def blockMarks (marks : List Char) : Option (Chomping × Option Nat) :=
  let chomping? := fun (c : Char) =>
    if c = '+' then some Chomping.keep else if c = '-' then some .strip else none
  let indent? := fun (c : Char) =>
    if '1' ≤ c ∧ c ≤ '9' then some (c.toNat - '0'.toNat) else none
  match marks with
  | [] => some (.clip, none)
  | [a] =>
    match chomping? a with
    | some chomping => some (chomping, none)
    | none => (indent? a).map fun n => (.clip, some n)
  | [a, b] =>
    match chomping? a, indent? b with
    | some chomping, some n => some (chomping, some n)
    | _, _ =>
      match indent? a, chomping? b with
      | some n, some chomping => some (chomping, some n)
      | _, _ => none
  | _ => none

/-- The indentation of a block scalar that does not give it: that of its first line with content,
or more if a line before it has more blanks. -/
def detectIndent (most : Nat) : List (List Char × List Char) → Option Nat
  | [] => some most
  | (line, stop) :: more =>
    let blanks := (line.takeWhile (· == ' ')).length
    let most := max most blanks
    match line.drop blanks with
    | [] => if stop.isEmpty then some most else detectIndent most more
    | '\t' :: _ => none
    | _ => some most

/-- The lines of a block scalar as they are read. -/
structure BlockScan where
  /-- Last character first. -/
  text : List Char := []
  /-- The end of the last line with content. -/
  pending : List Char := []
  /-- The ends of the empty lines behind it, last one first. -/
  empty : List Char := []
  /-- Did the last line with content start with a blank? -/
  blankBefore : Bool := false
  taken : Nat := 0

/-- Reads the lines of a block scalar with a known indentation. In a folded one the line ends
between two lines that do not start with blanks count as one blank less. -/
def scanBlockLines (folded : Bool) (indent : Nat) (s : BlockScan) :
    List (List Char × List Char) → Option BlockScan
  | [] => some s
  | (line, stop) :: more =>
    let blanks := ((line.take indent).takeWhile (· == ' ')).length
    let content := line.drop blanks
    let taken := s.taken + line.length + stop.length
    let stopKept := (stop.take 1).map keptBreak
    match content with
    | [] =>
      if stop.isEmpty then some s
      else scanBlockLines folded indent { s with empty := stopKept ++ s.empty, taken } more
    | c :: _ =>
      if blanks < indent then if c == '\t' then none else some s
      else
        let blank := isBlank c
        let folds := folded && s.pending == ['\n'] && !s.blankBefore && !blank
        let text :=
          if folds then if s.empty.isEmpty then ' ' :: s.text else s.empty ++ s.text
          else s.empty ++ s.pending ++ s.text
        scanBlockLines folded indent
          { text := content.reverse ++ text, pending := stopKept, empty := [],
            blankBefore := blank, taken } more

/-- Reads a block scalar, given what follows its sign, in a collection indented by `parent`. -/
def scanBlock (folded : Bool) (parent : Int) (text : List Char) : Option Scan := do
  let marks := text.takeWhile fun c => !(isBlank c || isBreak c || c == '#')
  let (chomping, given?) ← blockMarks marks
  let behind := text.drop marks.length
  let blanks := behind.takeWhile isBlank
  let comment := (behind.drop blanks.length).takeWhile (!isBreak ·)
  guard (comment.head?.all (· == '#'))
  let head := marks.length + blanks.length + comment.length
  let least := (max (parent + 1) 1).toNat
  let (stop, lines) := match linesOf least false (text.drop head) with
    | ([], stop) :: lines => (stop, lines)
    | lines => ([], lines)
  let indent ← match given? with
    | some n => pure (if 0 ≤ parent then parent.toNat + n else n)
    | none => (detectIndent 0 lines).map (max least)
  let s ← scanBlockLines folded indent {} lines
  let text := match chomping with
    | .strip => s.text
    | .clip => s.pending ++ s.text
    | .keep => s.empty ++ s.pending ++ s.text
  pure ⟨.ofList text.reverse, head + stop.length + s.taken, true⟩

end ForeignModule.Yaml
