/-!
# Binary floating point

A format is given by the widths of its fraction and its exponent; words are natural numbers. The
arithmetic is exact: a word decodes to a whole number times a power of two, and a ratio of whole
numbers rounds to the nearest word, ties to the even one. `Float` plays no part here, because
nothing can be proved about its operations.
-/

namespace ForeignModule.Number

/-- A binary interchange format. -/
structure Format where
  fractionBits : Nat
  exponentBits : Nat
deriving DecidableEq, Repr, Inhabited

/-- What a word of a format stands for. -/
inductive Datum where
  | nan
  | infinite (negative : Bool)
  /-- A whole number times a power of two. A zero keeps its sign. -/
  | finite (negative : Bool) (significand : Nat) (exponent : Int)
deriving DecidableEq, Repr, Inhabited

/-- The quotient, rounded to the nearest whole number, a half to the even one. -/
def divNearestEven (num den : Nat) : Nat :=
  let quotient := num / den
  let twice := 2 * (num % den)
  if twice < den then quotient
  else if den < twice then quotient + 1
  else quotient + quotient % 2

namespace Format

/-- 32 bits wide. -/
def single : Format := { fractionBits := 23, exponentBits := 8 }

/-- 64 bits wide. -/
def double : Format := { fractionBits := 52, exponentBits := 11 }

/-- The weight of the sign bit. -/
def signWeight (f : Format) : Nat := Nat.pow 2 (f.fractionBits + f.exponentBits)

/-- The word of positive infinity. All finite magnitudes lie below it. -/
def infinity (f : Format) : Nat := (Nat.pow 2 f.exponentBits - 1) * Nat.pow 2 f.fractionBits

/-- The word of a number that is none. -/
def quietNan (f : Format) : Nat := f.infinity + Nat.pow 2 (f.fractionBits - 1)

/-- The exponent of the smallest numbers. -/
def leastExponent (f : Format) : Int := 2 - Nat.pow 2 (f.exponentBits - 1) - f.fractionBits

/-- A magnitude with a sign. -/
def withSign (f : Format) (negative : Bool) (magnitude : Nat) : Nat :=
  if negative then f.signWeight + magnitude else magnitude

/-- What a word stands for. -/
def decode (f : Format) (word : Nat) : Datum :=
  let negative := word / f.signWeight % 2 == 1
  let field := word / Nat.pow 2 f.fractionBits % Nat.pow 2 f.exponentBits
  let fraction := word % Nat.pow 2 f.fractionBits
  if field = Nat.pow 2 f.exponentBits - 1 then
    if fraction = 0 then .infinite negative else .nan
  else if field = 0 then .finite negative fraction f.leastExponent
  else .finite negative (Nat.pow 2 f.fractionBits + fraction) (f.leastExponent + (field - 1 : Nat))

/-- The whole number nearest to `num / den` in units of two to the `exponent`. -/
def scaled (num den : Nat) (exponent : Int) : Nat :=
  if 0 ≤ exponent then divNearestEven num (den * Nat.pow 2 exponent.toNat)
  else divNearestEven (num * Nat.pow 2 (-exponent).toNat) den

/-- The position of the highest bit of the ratio `num / den` of two positive numbers. -/
def highBit (num den : Nat) : Int :=
  let guess : Int := (num.log2 : Int) - den.log2
  let below :=
    if 0 ≤ guess then num < den * Nat.pow 2 guess.toNat else num * Nat.pow 2 (-guess).toNat < den
  if below then guess - 1 else guess

/-- The magnitude nearest to the ratio `num / den`. The fraction carries into the exponent when it
rounds up to a power of two, and what comes out above the largest number is infinity. -/
def nearest (f : Format) (num den : Nat) : Nat :=
  if num = 0 then 0
  else
    let exponent := max f.leastExponent (highBit num den - f.fractionBits)
    let binade := (exponent - f.leastExponent).toNat
    min (binade * Nat.pow 2 f.fractionBits + scaled num den exponent) f.infinity

/-- The word nearest to a datum. -/
def encode (f : Format) : Datum → Nat
  | .nan => f.quietNan
  | .infinite negative => f.withSign negative f.infinity
  | .finite negative significand exponent =>
    f.withSign negative
      (if 0 ≤ exponent then f.nearest (significand * Nat.pow 2 exponent.toNat) 1
        else f.nearest significand (Nat.pow 2 (-exponent).toNat))

end Format

/-- A double, as its word. -/
structure Double where
  word : UInt64
deriving DecidableEq, Repr, Inhabited

namespace Double

/-- What a double stands for. -/
def datum (x : Double) : Datum := Format.double.decode x.word.toNat

/-- The double nearest to a datum. -/
def ofDatum (d : Datum) : Double := ⟨.ofNat (Format.double.encode d)⟩

/-- The double nearest to a whole number. -/
def ofInt (n : Int) : Double := ofDatum (.finite (n < 0) n.natAbs 0)

/-- Is the double not a number? -/
def isNan (x : Double) : Bool := x.datum == .nan

/-- The word of the single nearest to a double. -/
def toSingle (x : Double) : UInt32 := .ofNat (Format.single.encode x.datum)

/-- A single as a double, which is exact. -/
def ofSingle (word : UInt32) : Double := ofDatum (Format.single.decode word.toNat)

end Double

end ForeignModule.Number
