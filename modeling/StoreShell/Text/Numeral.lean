/-!
# Numerals

Reading decimal numerals of a fixed range. A numeral is a sequence of the digits 0 to 9, at least
one; a plus sign may precede it, and, where negative numbers are in range, a minus sign. A number
out of range is not read at all.
-/

namespace StoreShell.Text

def digits? (text : List Char) : Option Nat :=
  if text ≠ [] && text.all Char.isDigit then
    some (text.foldl (fun n c => n * 10 + (c.toNat - '0'.toNat)) 0)
  else none

/-- The numbers that an address or a size can be are below `2 ^ 64`. -/
def naturalBound : Nat := 0x10000000000000000

/-- The numbers that a code can be are below `2 ^ 31` and not below its opposite. -/
def integerBound : Nat := 0x80000000

/-- Reads a number from 0 to `2 ^ 64 - 1`. -/
def natural? (text : String) : Option Nat :=
  let digits := match text.toList with
    | '+' :: rest => rest
    | all => all
  (digits? digits).filter (· < naturalBound)

/-- Reads a number from `-2 ^ 31` to `2 ^ 31 - 1`. -/
def integer? (text : String) : Option Int :=
  match text.toList with
  | '-' :: rest => ((digits? rest).filter (· ≤ integerBound)).map fun n => -(n : Int)
  | '+' :: rest => ((digits? rest).filter (· < integerBound)).map fun n => (n : Int)
  | all => ((digits? all).filter (· < integerBound)).map fun n => (n : Int)

end StoreShell.Text
