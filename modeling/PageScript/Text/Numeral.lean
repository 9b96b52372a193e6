/-!
# Decimal numerals

`digits` writes a natural number in base ten and `value` reads a run of digits; they are inverse
on what `digits` writes (`value_digits`).  `ofInt` puts a minus sign before a negative number.
-/

namespace PageScript.Numeral

def digit (d : Nat) : Char :=
  Char.ofNat (48 + d)

def tenTo (k : Nat) : Nat :=
  Nat.pow 10 k

/-- A hexadecimal digit, in lower case. -/
def hexDigit (d : Nat) : Char :=
  if d < 10 then digit d else Char.ofNat (87 + d)

def digitValue (c : Char) : Nat :=
  c.toNat - 48

/-- The digits of a number, most significant first, without leading zeros. -/
def digits (n : Nat) : List Char :=
  if n < 10 then [digit n] else digits (n / 10) ++ [digit (n % 10)]

/-- The number a run of digits denotes; leading zeros count for nothing. -/
def value (ds : List Char) : Nat :=
  ds.foldl (fun n c => 10 * n + digitValue c) 0

def ofInt : Int → List Char
  | .ofNat n => digits n
  | .negSucc n => '-' :: digits (n + 1)

def text (n : Nat) : String :=
  String.ofList (digits n)

def intText (n : Int) : String :=
  String.ofList (ofInt n)

theorem digitValue_digit : ∀ d, d < 10 → digitValue (digit d) = d := by decide

theorem isDigit_digit : ∀ d, d < 10 → (digit d).isDigit = true := by decide

theorem value_concat (ds : List Char) (c : Char) :
    value (ds ++ [c]) = 10 * value ds + digitValue c := by
  simp [value, List.foldl_append]

theorem value_digits (n : Nat) : value (digits n) = n := by
  rw [digits]
  split
  · simp [value, digitValue_digit n (by assumption)]
  · rw [value_concat, value_digits (n / 10), digitValue_digit _ (by omega)]
    omega
termination_by n
decreasing_by omega

theorem isDigit_of_mem_digits (n : Nat) : ∀ c ∈ digits n, c.isDigit = true := by
  intro c hc
  rw [digits] at hc
  split at hc
  · rw [List.mem_singleton.mp hc]
    exact isDigit_digit n (by assumption)
  · rcases List.mem_append.mp hc with h | h
    · exact isDigit_of_mem_digits (n / 10) c h
    · rw [List.mem_singleton.mp h]
      exact isDigit_digit _ (by omega)
termination_by n
decreasing_by omega

theorem toList_text (n : Nat) : (text n).toList = digits n :=
  String.toList_ofList

theorem digits_ne_nil (n : Nat) : digits n ≠ [] := by
  rw [digits]
  split <;> simp

end PageScript.Numeral
