import ForeignModule.Number.Binary

/-!
# Decimal texts of floating-point numbers

* `Decimal.ofText?` reads decimals, infinities and non-numbers; the number is rounded once.
* `shortest` finds the fewest digits that read back as the same number, and of those the nearest; of
  two that are equally near it takes the one further from zero.
* `Double.text` writes them without an exponent and without a fraction of zero.
-/

namespace ForeignModule.Number

/-- A whole number times a power of ten. -/
structure Decimal where
  digits : Nat
  exponent : Int
deriving DecidableEq, Repr, Inhabited

/-- The number of decimal digits of a positive number; none for zero. -/
def digitCount (n : Nat) : Nat := if n = 0 then 0 else (Nat.toDigits 10 n).length

/-- The value of a digit in bases up to sixteen. -/
def digitValue? (base : Nat) (c : Char) : Option Nat :=
  let value? :=
    if c.isDigit then some (c.toNat - '0'.toNat)
    else if 'a' ≤ c ∧ c ≤ 'f' then some (c.toNat - 'a'.toNat + 10)
    else if 'A' ≤ c ∧ c ≤ 'F' then some (c.toNat - 'A'.toNat + 10)
    else none
  value?.filter (· < base)

/-- Reads digits behind those whose value is `soFar`. -/
def digitsFrom? (base soFar : Nat) : List Char → Option Nat
  | [] => some soFar
  | c :: rest =>
    match digitValue? base c with
    | some value => digitsFrom? base (soFar * base + value) rest
    | none => none

/-- Reads one or more digits and nothing else. -/
def digits? (base : Nat) (text : List Char) : Option Nat :=
  if text.isEmpty then none else digitsFrom? base 0 text

/-- A text without its sign, and whether that is a minus. -/
def splitSign : List Char → Bool × List Char
  | '-' :: rest => (true, rest)
  | '+' :: rest => (false, rest)
  | text => (false, text)

/-- Reads a whole number: one sign at most, then decimal digits. -/
def integer? (text : List Char) : Option Int :=
  let (negative, rest) := splitSign text
  (digits? 10 rest).map fun n => if negative then -n else n

namespace Decimal

/-- The mantissa of a decimal: digits with at most one point among them, and at least one digit. -/
def mantissa? (text : List Char) : Option Decimal :=
  let whole := text.takeWhile Char.isDigit
  match text.drop whole.length with
  | [] => (digits? 10 whole).map fun n => { digits := n, exponent := 0 }
  | '.' :: fraction =>
    (digits? 10 (whole ++ fraction)).map fun n => { digits := n, exponent := -fraction.length }
  | _ => none

/-- Reads a decimal without a sign: a mantissa, perhaps with an exponent. -/
def ofText? (text : List Char) : Option Decimal := do
  let isMark := fun (c : Char) => c == 'e' || c == 'E'
  let front := text.takeWhile (!isMark ·)
  let mantissa ← mantissa? front
  match text.drop front.length with
  | [] => pure mantissa
  | _ :: exponent => do
    let shift ← integer? exponent
    pure { mantissa with exponent := mantissa.exponent + shift }

/-- The magnitude nearest to a decimal. A decimal that is out of all proportion to the format is
not computed: it is infinite or zero. -/
def nearest (f : Format) (d : Decimal) : Nat :=
  let top := digitCount d.digits + d.exponent
  if d.digits = 0 ∨ top < -Nat.pow 2 f.exponentBits then 0
  else if Nat.pow 2 f.exponentBits < top then f.infinity
  else if 0 ≤ d.exponent then f.nearest (d.digits * Nat.pow 10 d.exponent.toNat) 1
  else f.nearest d.digits (Nat.pow 10 (-d.exponent).toNat)

/-- A decimal without the zeros at the end of its digits. -/
def trimZeros (d : Decimal) : Decimal :=
  let digits := Nat.toDigits 10 d.digits
  let kept := (digits.reverse.dropWhile (· == '0')).reverse
  { digits := (digitsFrom? 10 0 kept).getD 0
    exponent := d.exponent + (digits.length - kept.length : Nat) }

/-- A decimal in positional notation, with a point only where digits follow it. -/
def text (d : Decimal) : List Char :=
  let digits := Nat.toDigits 10 d.digits
  if 0 ≤ d.exponent then digits ++ List.replicate d.exponent.toNat '0'
  else
    let places := (-d.exponent).toNat
    if places < digits.length then
      let whole := digits.length - places
      digits.take whole ++ '.' :: digits.drop whole
    else '0' :: '.' :: List.replicate (places - digits.length) '0' ++ digits

end Decimal

/-! ## The fewest digits -/

/-- The numbers that round to one magnitude, in units of a power of ten so small that the ends and
the number itself are whole. -/
structure Interval where
  low : Nat
  value : Nat
  high : Nat
  /-- Do the ends themselves round to the number? -/
  closed : Bool
  exponent : Int
deriving Repr, Inhabited

namespace Interval

/-- Half the distance to the neighbours on either side of `significand` times two to the
`exponent`. Below a power of two the neighbour is only half as far away. -/
def around (f : Format) (significand : Nat) (exponent : Int) : Interval :=
  let atPower := significand == Nat.pow 2 f.fractionBits && f.leastExponent < exponent
  let quarter : Int := exponent - 2
  let unit := if 0 ≤ quarter then Nat.pow 2 quarter.toNat else Nat.pow 5 (-quarter).toNat
  { low := (4 * significand - if atPower then 1 else 2) * unit
    value := 4 * significand * unit
    high := (4 * significand + 2) * unit
    closed := significand % 2 == 0
    exponent := min quarter 0 }

/-- Does a number lie in the interval? -/
def holds (i : Interval) (n : Nat) : Bool :=
  if i.closed then i.low ≤ n && n ≤ i.high else i.low < n && n < i.high

/-- The nearest number in the interval on the grid that keeps `count` digits of the value. Only
the value's two neighbours on the grid can be it. If both are equally near, it is the upper one. -/
def onGrid? (i : Interval) (count : Nat) : Option Decimal :=
  let coarse := digitCount i.value - count
  let step := Nat.pow 10 coarse
  let below := i.value / step
  let decimal := fun n : Nat => ({ digits := n, exponent := i.exponent + coarse } : Decimal)
  let lowFits := i.holds (below * step)
  let highFits := i.holds ((below + 1) * step)
  if lowFits && (!highFits || i.value - below * step < (below + 1) * step - i.value) then
    some (decimal below)
  else if highFits then some (decimal (below + 1))
  else none

/-- The decimal with the fewest digits in the interval. With all its digits the value itself is on
the grid. -/
def shortest (i : Interval) : Decimal :=
  let counts := (List.range (digitCount i.value)).map (· + 1)
  ((counts.findSome? i.onGrid?).getD { digits := i.value, exponent := i.exponent }).trimZeros

end Interval

namespace Double

/-- The text of a double. -/
def text (x : Double) : String :=
  let sign := fun (negative : Bool) => if negative then "-" else ""
  match x.datum with
  | .nan => "NaN"
  | .infinite negative => sign negative ++ "inf"
  | .finite negative 0 _ => sign negative ++ "0"
  | .finite negative significand exponent =>
    sign negative ++ .ofList (Interval.around .double significand exponent).shortest.text

/-- Reads a double: a decimal, or a word for an infinity or a non-number in any case of letters,
with one sign at most. -/
def ofText? (text : List Char) : Option Double :=
  let (negative, rest) := splitSign text
  let signed := fun magnitude => (⟨.ofNat (Format.double.withSign negative magnitude)⟩ : Double)
  match Decimal.ofText? rest with
  | some d => some (signed (d.nearest .double))
  | none =>
    let word := String.ofList (rest.map Char.toLower)
    if word = "inf" ∨ word = "infinity" then some (signed Format.double.infinity)
    else if word = "nan" then some (signed Format.double.quietNan)
    else none

end Double

end ForeignModule.Number
