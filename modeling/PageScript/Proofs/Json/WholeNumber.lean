import Mathlib.Tactic
import Mathlib.Data.List.TakeWhile
import PageScript.Json.Number

/-!
# Whole numbers as written

A whole number is written as its digits, after a minus sign if it is negative
(`Spelling.ofInt`).  Reading accepts that spelling (`Spelling.ofChars?_ofInt`), and where the
number is within the range that is kept exactly it denotes that number again
(`Spelling.number?_ofInt`).  The one whole number with a sign of its own, `-0`, is written with a
point and denotes what it did (`Spelling.number?_negativeZero`).
-/

namespace PageScript

namespace Numeral

theorem digits_of_lt {n : ℕ} (h : n < 10) : digits n = [digit n] := by
  rw [digits, if_pos h]

theorem digits_of_le {n : ℕ} (h : 10 ≤ n) :
    digits n = digits (n / 10) ++ [digit (n % 10)] := by
  rw [digits, if_neg (by omega)]

theorem digit_eq_zero : ∀ d, d < 10 → digit d = '0' → d = 0 := by decide

/-- Only the numeral of zero begins with a zero. -/
theorem eq_zero_of_head?_digits {n : ℕ} (h : (digits n).head? = some '0') : n = 0 := by
  rcases Nat.lt_or_ge n 10 with hn | hn
  · rw [digits_of_lt hn] at h
    exact digit_eq_zero n hn (by simpa using h)
  · rw [digits_of_le hn, List.head?_append_of_ne_nil _ (digits_ne_nil _)] at h
    have := eq_zero_of_head?_digits h
    omega
termination_by n
decreasing_by omega

theorem natAbs_digits (n : ℤ) :
    ofInt n = if n < 0 then '-' :: digits n.natAbs else digits n.natAbs := by
  cases n with
  | ofNat n => simp [ofInt]
  | negSucc n => simp [ofInt, Int.negSucc_lt_zero]

end Numeral

namespace Json

open Numeral

namespace Spelling

/-- The spelling of a whole number. -/
def ofInt (n : ℤ) : Spelling :=
  ⟨n < 0, digits n.natAbs, [], none⟩

theorem splitDigits_digits (n : ℕ) : splitDigits (digits n) = (digits n, []) := by
  have h : ∀ c ∈ digits n, c.isDigit = true := isDigit_of_mem_digits n
  rw [splitDigits, List.takeWhile_eq_self_iff.2 h, List.dropWhile_eq_nil_iff.2 h]

theorem unsigned?_digits (negative : Bool) (n : ℕ) :
    unsigned? negative (digits n) = some ⟨negative, digits n, [], none⟩ := by
  have h : digits n ≠ [] ∧ ((digits n).head? = some '0' → (digits n).length = 1) := by
    refine ⟨digits_ne_nil n, fun h => ?_⟩
    rw [eq_zero_of_head?_digits h, digits_of_lt (by omega)]
    rfl
  simp only [unsigned?, splitDigits_digits, guard, if_pos h]
  rfl

theorem digits_ne_minus (n : ℕ) {cs : List Char} : digits n ≠ '-' :: cs := by
  intro h
  have := isDigit_of_mem_digits n '-' (by simp [h])
  simp at this

theorem ofChars?_ofInt (n : ℤ) : ofChars? (Numeral.ofInt n) = some (ofInt n) := by
  rw [natAbs_digits]
  split
  · rename_i h
    simp only [ofChars?, unsigned?_digits, ofInt, h, decide_true]
  · rename_i h
    rw [ofChars?, unsigned?_digits]
    · simp [ofInt, h]
    · exact fun cs h => digits_ne_minus _ h

/-- Digits of a number within 64 bits are collected without loss. -/
theorem wholeScaled_digits {n : ℕ} (h : n ≤ Number.greatest) :
    (digits n).foldl Scaled.addWhole ⟨0, 0⟩ = ⟨n, 0⟩ := by
  rcases Nat.lt_or_ge n 10 with hn | hn
  · have hg : ¬ Number.greatest < n := by omega
    simp [digits_of_lt hn, Scaled.addWhole, digitValue_digit n hn, hg]
  · have ih := wholeScaled_digits (n := n / 10) (by omega)
    have hd := digitValue_digit (n % 10) (by omega)
    have hs : 10 * (n / 10) + n % 10 = n := by omega
    have hg : ¬ Number.greatest < n := by omega
    simp [digits_of_le hn, ih, Scaled.addWhole, hd, hs, hg]
termination_by n
decreasing_by omega

theorem int?_ofInt {n : ℤ} (h : (Number.int n).Exact) : (ofInt n).int? = some n := by
  obtain ⟨hl, hg⟩ : Number.least ≤ n ∧ n ≤ Number.greatest := h
  have hs : (ofInt n).wholeScaled = ⟨n.natAbs, 0⟩ :=
    wholeScaled_digits (by simp only [Number.least, Number.greatest] at *; omega)
  rw [int?, hs]
  cases n with
  | ofNat n => simp [ofInt]
  | negSucc n =>
    have hn : Number.least ≤ -((n + 1 : ℕ) : ℤ) := by omega
    simp only [ofInt, Int.natAbs_negSucc, Int.negSucc_lt_zero, decide_true, hn]
    simp [Int.negSucc_eq]

theorem number?_ofInt {n : ℤ} (h : (Number.int n).Exact) :
    (ofInt n).number? = some (.int n) := by
  simp [number?, int?_ofInt h]

end Spelling

namespace Magnitude

theorem ofRatio_zero (den : ℕ) : ofRatio 0 den = some zero := by
  rw [ofRatio, if_pos rfl]

theorem ratio_zero : zero.ratio.1 = 0 := by decide

theorem shrink_zero {k : ℕ} (h : k ≤ 308) (hk : (tenTo k).isSome = true) :
    zero.shrink k = some zero := by
  obtain ⟨y, hy⟩ := Option.isSome_iff_exists.1 hk
  rw [shrink, if_pos h, hy, Option.bind_eq_bind, Option.bind_some, dividedBy, ratio_zero,
    Nat.zero_mul, ofRatio_zero]

theorem scaled_of_neg {n : ℕ} {e : ℤ} {x : Magnitude} (h : ofNat n = some x) (he : e < 0) :
    scaled n e = x.shrink (-e).toNat := by
  rw [scaled, h, Option.bind_eq_bind, Option.bind_some, if_pos he]

end Magnitude

namespace Spelling

theorem ofChars?_negativeZero :
    ofChars? Number.negativeZero.chars = some ⟨true, ['0'], ['0'], none⟩ := by decide

theorem number?_negativeZero :
    number? ⟨true, ['0'], ['0'], none⟩ = some (.double Number.negativeZero) := by
  have hint : int? ⟨true, ['0'], ['0'], none⟩ = none := by decide
  have hmagnitude : magnitude? ⟨true, ['0'], ['0'], none⟩ = some .zero :=
    (Magnitude.scaled_of_neg (Magnitude.ofRatio_zero 1) (by decide)).trans
      (Magnitude.shrink_zero (by decide) (by decide))
  rw [number?, hint, hmagnitude]
  rfl

end Spelling

end Json

end PageScript
