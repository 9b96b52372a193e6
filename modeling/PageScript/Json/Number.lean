import PageScript.Json.Double.Shortest

/-!
# Numbers in JSON text

A `Numeral` is a number as it is spelled: sign, whole digits, digits after the point, exponent.
`Numeral.ofChars?` accepts exactly the spellings of the JSON grammar: no leading zero, at least
one digit after a point and after an `e`.

A `Number` is what a spelling denotes.  A whole number between `-2 ^ 63` and `2 ^ 64 - 1` written
without point and exponent is kept exactly (`Number.int`); every other spelling, and `-0`, is a
double, and one beyond the greatest double denotes nothing.
-/

namespace PageScript.Json

inductive Number where
  | int (n : Int)
  | double (x : Double)
deriving DecidableEq

namespace Number

def least : Int := -9223372036854775808

def greatest : Nat := 18446744073709551615

def negativeZero : Double := ⟨true, .zero⟩

/-- Whether a whole number without point and exponent denotes it, one that does not leave the
range of those that are kept exactly. -/
def Exact : Number → Prop
  | .int n => least ≤ n ∧ n ≤ greatest
  | .double x => x = negativeZero

def chars : Number → List Char
  | .int n => Numeral.ofInt n
  | .double x => x.chars

end Number

/-- A number as spelled.  The digits after the point are empty when there is no point. -/
structure Spelling where
  negative : Bool
  whole : List Char
  fraction : List Char
  exponent : Option (Bool × List Char)
deriving DecidableEq

namespace Spelling

def splitDigits (cs : List Char) : List Char × List Char :=
  (cs.takeWhile Char.isDigit, cs.dropWhile Char.isDigit)

/-- What follows the whole digits: the digits after a point, if there is one. -/
def fraction? : List Char → Option (List Char × List Char)
  | '.' :: cs =>
    match splitDigits cs with
    | ([], _) => none
    | split => some split
  | cs => some ([], cs)

def exponentSign : List Char → Bool × List Char
  | '+' :: cs => (false, cs)
  | '-' :: cs => (true, cs)
  | cs => (false, cs)

/-- What follows the fraction: nothing, or an exponent that ends the numeral. -/
def exponent? : List Char → Option (Option (Bool × List Char))
  | [] => some none
  | c :: cs =>
    if c = 'e' ∨ c = 'E' then
      let (negative, rest) := exponentSign cs
      match splitDigits rest with
      | ([], _) => none
      | (ds, []) => some (some (negative, ds))
      | (_, _ :: _) => none
    else none

def unsigned? (negative : Bool) (cs : List Char) : Option Spelling := do
  let (whole, rest) := splitDigits cs
  guard (whole ≠ [] ∧ (whole.head? = some '0' → whole.length = 1))
  let (fraction, rest) ← fraction? rest
  let exponent ← exponent? rest
  return ⟨negative, whole, fraction, exponent⟩

def ofChars? : List Char → Option Spelling
  | '-' :: cs => unsigned? true cs
  | cs => unsigned? false cs

/-- A significand of at most 64 bits and the power of ten that goes with it. -/
structure Scaled where
  significand : Nat
  exponent : Int

/-- Appends a whole digit.  From the first digit that would overflow the significand on, digits
only raise the exponent. -/
def Scaled.addWhole (s : Scaled) (c : Char) : Scaled :=
  let next := 10 * s.significand + Numeral.digitValue c
  if 0 < s.exponent ∨ Number.greatest < next then { s with exponent := s.exponent + 1 }
  else { s with significand := next }

/-- Appends digits after the point, up to the first that would overflow the significand; that one
and all after it are left out. -/
def Scaled.addFraction (s : Scaled) : List Char → Scaled
  | [] => s
  | c :: cs =>
    let next := 10 * s.significand + Numeral.digitValue c
    if Number.greatest < next then s else addFraction ⟨next, s.exponent - 1⟩ cs

def wholeScaled (n : Spelling) : Scaled :=
  n.whole.foldl Scaled.addWhole ⟨0, 0⟩

def scaled (n : Spelling) : Scaled :=
  n.wholeScaled.addFraction n.fraction

/-- The greatest exponent that is read as a number; a greater one stands for zero or for
nothing. -/
def greatestExponent : Nat := 2147483647

def magnitude? (n : Spelling) : Option Magnitude :=
  let s := n.scaled
  match n.exponent with
  | none => Magnitude.scaled s.significand s.exponent
  | some (negative, ds) =>
    let e := Numeral.value ds
    if greatestExponent < e then
      if s.significand = 0 ∨ negative then some Magnitude.zero else none
    else Magnitude.scaled s.significand (if negative then s.exponent - e else s.exponent + e)

/-- Whether the spelling is a whole number that is kept exactly. -/
def int? (n : Spelling) : Option Int :=
  let s := n.wholeScaled
  if n.fraction = [] ∧ n.exponent = none ∧ s.exponent = 0 then
    if n.negative then
      if s.significand ≠ 0 ∧ Number.least ≤ -(s.significand : Int) then some (-s.significand)
      else none
    else some s.significand
  else none

def number? (n : Spelling) : Option Number :=
  match n.int? with
  | some i => some (.int i)
  | none => n.magnitude?.map fun m => .double ⟨n.negative, m⟩

end Spelling

end PageScript.Json
