import PageScript.Text.Numeral

/-!
# Unique ids

A version-4 UUID as 32 hexadecimal digits without dashes: 122 free bits around the four bits of
the version and the two of the variant.  `Uuid.ofNat` takes the free bits from a number.
-/

namespace PageScript.Uuid

/-- How many ids there are. -/
def count : Nat := 1 <<< 122

/-- The last `places` hexadecimal digits of a number. -/
def hex : Nat → Nat → List Char
  | 0, _ => []
  | places + 1, n => hex places (n / 16) ++ [Numeral.hexDigit (n % 16)]

/-- The version stands in the digit after the first 48 bits, the variant in the two bits above the
last 62. -/
def ofNat (n : Nat) : String :=
  let high := n >>> 74
  let middle := (n >>> 62) % (1 <<< 12)
  let low := n % (1 <<< 62)
  String.ofList (hex 12 high ++ '4' :: hex 3 middle ++ hex 16 ((1 <<< 63) + low))

end PageScript.Uuid
