import PageScript.Text.Numeral

/-!
# Double-precision numbers

A `Double` is a sign and a magnitude `mantissa · 2 ^ exponent`, the value of a finite binary64
number.  Every operation computes the exact rational result and rounds it once, to the nearest
representable value and on a tie to the even mantissa (`Magnitude.ofRatio`).

`Magnitude.scaled` is the decimal conversion the number reader makes: a whole significand is
rounded first and then multiplied or divided by a rounded power of ten, so its answer may differ
from the nearest double in the last place.
-/

namespace PageScript.Json

/-- A finite nonnegative double.  Below `2 ^ 52` the mantissa belongs to the least exponent. -/
structure Magnitude where
  mantissa : Nat
  exponent : Int
deriving DecidableEq

structure Double where
  negative : Bool
  magnitude : Magnitude
deriving DecidableEq

namespace Magnitude

def leastExponent : Int := -1074

def greatestExponent : Int := 971

def zero : Magnitude := ⟨0, leastExponent⟩

def isZero (x : Magnitude) : Bool :=
  x.mantissa == 0

/-- The whole number nearest to a quotient, the even one of two equally near. -/
def nearest (num den : Nat) : Nat :=
  let q := num / den
  let r := num % den
  if den < 2 * r ∨ (2 * r = den ∧ q % 2 = 1) then q + 1 else q

/-- A quotient as numerator and denominator after division by `2 ^ e`. -/
def shift (num den : Nat) (e : Int) : Nat × Nat :=
  if 0 ≤ e then (num, den <<< e.toNat) else (num <<< (-e).toNat, den)

/-- The double nearest to a quotient, or nothing beyond the greatest finite double. -/
def ofRatio (num den : Nat) : Option Magnitude :=
  if num = 0 then some zero else
    let low : Int := (num.log2 : Int) - den.log2 - 53
    let at_low := shift num den low
    let fit := if 1 <<< 53 ≤ at_low.1 / at_low.2 then low + 1 else low
    let e := max fit leastExponent
    let at_e := shift num den e
    let m := nearest at_e.1 at_e.2
    let x : Magnitude := if m = 1 <<< 53 then ⟨1 <<< 52, e + 1⟩ else ⟨m, e⟩
    if greatestExponent < x.exponent then none else some x

/-- The exact value as a quotient. -/
def ratio (x : Magnitude) : Nat × Nat :=
  if 0 ≤ x.exponent then (x.mantissa <<< x.exponent.toNat, 1)
  else (x.mantissa, 1 <<< (-x.exponent).toNat)

def ofNat (n : Nat) : Option Magnitude :=
  ofRatio n 1

def times (x y : Magnitude) : Option Magnitude :=
  ofRatio (x.ratio.1 * y.ratio.1) (x.ratio.2 * y.ratio.2)

def dividedBy (x y : Magnitude) : Option Magnitude :=
  ofRatio (x.ratio.1 * y.ratio.2) (x.ratio.2 * y.ratio.1)

def tenTo (k : Nat) : Option Magnitude :=
  ofNat (Numeral.tenTo k)

/-- Division by a power of ten in steps of at most `10 ^ 308`, the greatest power a double
holds. -/
def shrink (x : Magnitude) (k : Nat) : Option Magnitude :=
  if k ≤ 308 then do x.dividedBy (← tenTo k)
  else if x.isZero then some x
  else do
    let y ← x.dividedBy (← tenTo 308)
    y.shrink (k - 308)
termination_by k

/-- `significand · 10 ^ e`, or nothing when the result is too large. -/
def scaled (significand : Nat) (e : Int) : Option Magnitude := do
  let x ← ofNat significand
  if e < 0 then x.shrink (-e).toNat
  else if e ≤ 308 then x.times (← tenTo e.toNat)
  else if x.isZero then some x
  else none

end Magnitude

end PageScript.Json
