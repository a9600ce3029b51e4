/-!
# White space

The characters with the Unicode property White_Space, and what it means to trim a text and to cut
it into words by them. Source texts know fewer blanks; this class is for the text of types.
-/

namespace ForeignModule.Text

/-- Is a code point in one of these closed ranges? -/
def inRanges (ranges : List (Nat × Nat)) (n : Nat) : Bool :=
  ranges.any fun (low, high) => low ≤ n && n ≤ high

/-- The code points with the property White_Space, in order. -/
def blankRanges : List (Nat × Nat) :=
  [(0x9, 0xd), (0x20, 0x20), (0x85, 0x85), (0xa0, 0xa0), (0x1680, 0x1680), (0x2000, 0x200a),
    (0x2028, 0x2029), (0x202f, 0x202f), (0x205f, 0x205f), (0x3000, 0x3000)]

/-- Has the character the property White_Space? -/
def isBlank (c : Char) : Bool := inRanges blankRanges c.toNat

/-- A text without the blanks at its start. -/
def trimStart (text : List Char) : List Char := text.dropWhile isBlank

/-- A text without the blanks at its end. -/
def trimEnd (text : List Char) : List Char := (text.reverse.dropWhile isBlank).reverse

/-- A text without the blanks at both ends. -/
def trim (text : List Char) : List Char := trimEnd (trimStart text)

end ForeignModule.Text
