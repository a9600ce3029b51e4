import ForeignModule.Number.Decimal
import ForeignModule.Yaml.Scalar
import ForeignModule.Yaml.Tag

/-!
# What scalars stand for

A scalar is a text, unless it is written plain and looks like something else, or has a tag that says
what it is.

* `Resolved.ofPlain` says which plain scalars without a tag are something else than texts;
* `Resolved.of?` says what any scalar stands for.
-/

namespace ForeignModule.Yaml

/-- The value of a scalar. -/
inductive Resolved where
  | null
  | bool (b : Bool)
  | integer (n : Int)
  /-- A number that is no integer. -/
  | real
  | text (s : String)
deriving DecidableEq, Repr, Inhabited

namespace Resolved

/-- Is this the word for nothing? -/
def isNull (s : String) : Bool := ["null", "Null", "NULL", "~"].contains s

/-- The truth value of a word. -/
def bool? (s : String) : Option Bool :=
  if ["true", "True", "TRUE"].contains s then some true
  else if ["false", "False", "FALSE"].contains s then some false
  else none

/-- Digits behind a zero are no number. -/
def hasLeadingZero (digits : List Char) : Bool :=
  1 < digits.length && digits.head? == some '0' && digits.all Char.isDigit

/-- The value of digits with a mark for their base before them. -/
def magnitude? : List Char → Option Nat
  | '0' :: 'x' :: digits => Number.digits? 16 digits
  | '0' :: 'o' :: digits => Number.digits? 8 digits
  | '0' :: 'b' :: digits => Number.digits? 2 digits
  | digits => if hasLeadingZero digits then none else Number.digits? 10 digits

/-- The integer that a word stands for. It has 128 bits at most. -/
def integer? (s : String) : Option Int := do
  let (negative, rest) := Number.splitSign s.toList
  let n ← magnitude? rest
  if negative then if n ≤ Nat.pow 2 127 then some (-n) else none
  else if n < Nat.pow 2 128 then some n
  else none

/-- Can a word be read as a number that is no integer? -/
def isReal (s : String) : Bool :=
  let rest := (Number.splitSign s.toList).2
  [".inf", ".Inf", ".INF"].contains (String.ofList rest)
    || [".nan", ".NaN", ".NAN"].contains s
    || (Number.Decimal.ofText? rest).any fun d =>
      d.nearest Number.Format.double < Number.Format.double.infinity

/-- What a plain scalar stands for. -/
def ofPlain (s : String) : Resolved :=
  if s.isEmpty || isNull s then null
  else
    match bool? s with
    | some b => bool b
    | none =>
      match integer? s with
      | some n => integer n
      | none =>
        if isReal s && !hasLeadingZero (Number.splitSign s.toList).2 then real else text s

/-- What a scalar stands for, if it makes sense. A standard tag says how its text is read, and a tag
of the document's own has no meaning here. Under all other tags it is a text. -/
def of? (tag : Option Tag) (style : Style) (s : String) : Option Resolved :=
  match tag with
  | none => some (if style = .plain then ofPlain s else text s)
  | some t =>
    if t.isLocal then none
    else if t = .bool then (bool? s).map bool
    else if t = .int then (integer? s).map integer
    else if t = .float then if isReal s then some real else none
    else if t = .null then if isNull s then some null else none
    else some (if style = .plain ∧ t.hasMark then ofPlain s else text s)

end Resolved

end ForeignModule.Yaml
