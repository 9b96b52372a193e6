import PageScript.Json.Double

/-!
# The shortest numeral of a double

`Magnitude.shortest` gives the fewest decimal digits that read back as the same double, and of
those the nearest to it.  A double stands for an interval of reals, whose ends belong to it when
its mantissa is even; a grid of decimals with a given number of digits meets the interval only if
one of the two neighbours of the value on that grid lies in it.

`Double.chars` lays the digits out: with a decimal point from `1e-5` up to `1e16`, always with at
least one digit on either side of it, and with an exponent and its sign beyond.
-/

namespace PageScript.Json

namespace Magnitude

/-- The reals that round to a double, in quarters of its last binary place. -/
structure Neighbourhood where
  below : Nat
  centre : Nat
  above : Nat
  closed : Bool

def neighbourhood (x : Magnitude) : Neighbourhood where
  below := 4 * x.mantissa -
    (if x.mantissa = 1 <<< 52 ∧ leastExponent < x.exponent then 1 else 2)
  centre := 4 * x.mantissa
  above := 4 * x.mantissa + 2
  closed := x.mantissa % 2 = 0

/-- Quarters of the last place times this quotient are units of the value. -/
def quarter (x : Magnitude) : Nat × Nat :=
  if 2 ≤ x.exponent then (1 <<< (x.exponent - 2).toNat, 1)
  else (1, 1 <<< (2 - x.exponent).toNat)

def width (n : Nat) : Nat :=
  if n = 0 then 0 else (Numeral.digits n).length

/-- The place of the first digit: the greatest power of ten up to a positive quotient. -/
def leadingPlace (num den : Nat) : Int :=
  if den ≤ num then (width (num / den) : Int) - 1
  else -(width ((den + num - 1) / num - 1) : Int)

/-- The quotient by a power of ten, as numerator and denominator. -/
def overTenTo (num den : Nat) (k : Int) : Nat × Nat :=
  if 0 ≤ k then (num, den * Numeral.tenTo k.toNat) else (num * Numeral.tenTo (-k).toNat, den)

/-- Whether `d · 10 ^ k` reads back as the double. -/
def holds (x : Magnitude) (d : Nat) (k : Int) : Bool :=
  let u := overTenTo x.quarter.1 x.quarter.2 k
  let n := x.neighbourhood
  let low := n.below * u.1
  let high := n.above * u.1
  let v := d * u.2
  if n.closed then low ≤ v && v ≤ high else low < v && v < high

/-- Of the two neighbours of the value on the grid of `10 ^ k`, the nearer one that reads back;
of two equally near the even one. -/
def onGrid (x : Magnitude) (k : Int) : Option Nat :=
  let u := overTenTo x.quarter.1 x.quarter.2 k
  let num := x.neighbourhood.centre * u.1
  let d := num / u.2
  let r := num % u.2
  let upFirst := u.2 < 2 * r || (2 * r == u.2 && d % 2 == 1)
  let order := if upFirst then [d + 1, d] else [d, d + 1]
  order.find? (x.holds · k)

/-- Drops trailing zeros, each of which raises the place of the last digit by one. -/
def trim (d : Nat) (k : Int) : Nat × Int :=
  if h : d % 10 = 0 ∧ d ≠ 0 then trim (d / 10) (k + 1) else (d, k)
termination_by d
decreasing_by omega

/-- The shortest decimal `d · 10 ^ k` that reads back as a positive double.  Seventeen digits
always do, so the last case does not arise. -/
def shortest (x : Magnitude) : Nat × Int :=
  let p := leadingPlace x.ratio.1 x.ratio.2
  let found := (List.range 17).findSome? fun n : Nat =>
    let k := p - n
    (x.onGrid k).map fun d => trim d k
  found.getD (0, 0)

end Magnitude

namespace Double

/-- Digits with a decimal point after the first `point` of them, padded with zeros. -/
def positional (ds : List Char) (point : Int) : List Char :=
  if point ≤ 0 then '0' :: '.' :: List.replicate (-point).toNat '0' ++ ds
  else if ds.length ≤ point.toNat then
    ds ++ List.replicate (point.toNat - ds.length) '0' ++ ['.', '0']
  else ds.take point.toNat ++ '.' :: ds.drop point.toNat

/-- One digit before the point, and the power of ten with its sign. -/
def scientific (ds : List Char) (place : Int) : List Char :=
  ds.take 1 ++ (if ds.length ≤ 1 then [] else '.' :: ds.drop 1) ++
    'e' :: (if 0 ≤ place then '+' else '-') :: Numeral.digits place.natAbs

def magnitudeChars (x : Magnitude) : List Char :=
  if x.isZero then ['0', '.', '0'] else
    let s := x.shortest
    let ds := Numeral.digits s.1
    let place := s.2 + ds.length - 1
    if -5 ≤ place ∧ place < 16 then positional ds (place + 1) else scientific ds place

def chars (x : Double) : List Char :=
  if x.negative then '-' :: magnitudeChars x.magnitude else magnitudeChars x.magnitude

end Double

end PageScript.Json
