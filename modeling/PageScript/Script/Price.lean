import PageScript.Text.Numeral

/-!
# The price in a script

The price is the first run of digits, with a point and the digits right after it if they are
there, in dollars.  `cents?` turns it into cents.

The amount is held as a whole number of at most 96 bits and a count of at most 28 decimal places.
A fraction with more digits than fit is rounded at the first digit that does not, a half upwards.
Times a hundred, an amount that outgrows the 96 bits gives up places, rounded to the even
neighbour on a tie.  The cents are rounded once more, a half away from zero.
-/

namespace PageScript.Script.Price

/-- The digits before the point and those after it, none when there is no point. -/
structure Written where
  whole : List Char
  fraction : List Char

def fractionAfter : List Char → List Char
  | '.' :: cs => cs.takeWhile Char.isDigit
  | _ => []

def find? (cs : List Char) : Option Written :=
  let start := cs.dropWhile fun c => !c.isDigit
  if start.isEmpty then none
  else some ⟨start.takeWhile Char.isDigit, fractionAfter (start.dropWhile Char.isDigit)⟩

/-- `units / 10 ^ places`. -/
structure Amount where
  units : Nat
  places : Nat
deriving DecidableEq

/-- What the units have to stay below. -/
def bound : Nat := 1 <<< 96

def maxPlaces : Nat := 28

def wholeUnits? (ds : List Char) : Option Nat :=
  let n := Numeral.value ds
  if n < bound then some n else none

/-- Rounds at the first digit that does not fit. -/
def roundOff? (units places digit : Nat) : Option Amount :=
  if digit < 5 then some ⟨units, places⟩
  else if units + 1 < bound then some ⟨units + 1, places⟩
  else
    match places with
    | 0 => none
    | p + 1 => some ⟨(units + 5) / 10, p⟩

def addFraction? (units places : Nat) : List Char → Option Amount
  | [] => some ⟨units, places⟩
  | c :: cs =>
    let next := 10 * units + Numeral.digitValue c
    if places = maxPlaces ∨ bound ≤ next then roundOff? units places (Numeral.digitValue c)
    else addFraction? next (places + 1) cs

def Written.amount? (w : Written) : Option Amount := do
  addFraction? (← wholeUnits? w.whole) 0 w.fraction

/-- Drops decimal places until the units fit, rounding to the nearest and on a tie to the even
neighbour; `inexact` says whether something was dropped before. -/
def reduce? (units drop : Nat) (inexact : Bool) (places : Nat) : Option Amount :=
  let q := units / Numeral.tenTo drop
  let r := units % Numeral.tenTo drop
  let half := Numeral.tenTo drop / 2
  if bound ≤ q then
    match places with
    | 0 => none
    | p + 1 => reduce? q 1 (inexact || r != 0) p
  else if half < r || (half == r && (inexact || q % 2 == 1)) then
    if q + 1 < bound then some ⟨q + 1, places⟩
    else
      match places with
      | 0 => none
      | p + 1 => reduce? (q + 1) 1 false p
  else some ⟨q, places⟩

/-- How many places a product of this size gives up at once. -/
def placesOver (units : Nat) : Nat :=
  (units.log2 - 96) * 77 / 256 + 1

def Amount.timesHundred? (a : Amount) : Option Amount :=
  let units := 100 * a.units
  if units = 0 then some ⟨0, 0⟩
  else if units < bound then some ⟨units, a.places⟩
  else if a.places < placesOver units then none
  else reduce? units (placesOver units) false (a.places - placesOver units)

/-- The nearest whole number, a half upwards. -/
def Amount.round (a : Amount) : Nat :=
  (2 * a.units + Numeral.tenTo a.places) / (2 * Numeral.tenTo a.places)

def Written.cents? (w : Written) : Option UInt64 := do
  let n := (← (← w.amount?).timesHundred?).round
  if n < 18446744073709551616 then some (UInt64.ofNat n) else none

end PageScript.Script.Price
