import StoreShell.Text.Bytes

/-!
# Hexadecimal text

Bytes as pairs of lowercase hexadecimal digits.
-/

namespace StoreShell.Text.Hex

/-- The lowercase digit of a number below sixteen. -/
def digit (n : Nat) : Char :=
  if n < 10 then Char.ofNat ('0'.toNat + n) else Char.ofNat ('a'.toNat + (n - 10))

/-- The number of a hexadecimal digit of either case. -/
def value? (c : Char) : Option Nat :=
  if c.isDigit then some (c.toNat - '0'.toNat)
  else if 'a' ≤ c && c ≤ 'f' then some (c.toNat - 'a'.toNat + 10)
  else if 'A' ≤ c && c ≤ 'F' then some (c.toNat - 'A'.toNat + 10)
  else none

def encode (bytes : Bytes) : String :=
  String.ofList <| bytes.flatMap fun b => [digit (b.toNat / 16), digit (b.toNat % 16)]

end StoreShell.Text.Hex
