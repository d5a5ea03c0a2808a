/-!
# Blank and control characters

The two classes of characters that reading a line and logging it depend on. Both are tables of code
point ranges of the Unicode standard: `isBlank` holds of the characters with the property
`White_Space`, `isControl` of those of the general category `Cc`.
-/

namespace StoreShell.Text

/-- First and last code points of the ranges with the property `White_Space`. -/
def blankRanges : List (Nat × Nat) :=
  [(0x09, 0x0D), (0x20, 0x20), (0x85, 0x85), (0xA0, 0xA0), (0x1680, 0x1680), (0x2000, 0x200A),
    (0x2028, 0x2029), (0x202F, 0x202F), (0x205F, 0x205F), (0x3000, 0x3000)]

/-- First and last code points of the ranges of the category `Cc`. -/
def controlRanges : List (Nat × Nat) :=
  [(0x00, 0x1F), (0x7F, 0x9F)]

/-- A code point is in a table when one of its ranges holds it. -/
def inRanges (table : List (Nat × Nat)) (c : Char) : Bool :=
  table.any fun (first, last) => first ≤ c.toNat && c.toNat ≤ last

/-- A blank separates the words of a line. -/
def isBlank (c : Char) : Bool :=
  inRanges blankRanges c

/-- A control character never reaches a log line. -/
def isControl (c : Char) : Bool :=
  inRanges controlRanges c

def trimBlank (text : List Char) : List Char :=
  ((text.dropWhile isBlank).reverse.dropWhile isBlank).reverse

end StoreShell.Text
