import Mathlib.Algebra.Order.Round
import Mathlib.Data.List.Induction
import Mathlib.Data.Rat.Floor
import Mathlib.Tactic.FieldSimp
import Mathlib.Tactic.Linarith
import Mathlib.Tactic.Ring
import PageScript.Script.Price

/-!
# Rounding an amount

What is held of an amount with many decimal places is the amount rounded at the last place there is
room for (`Script.Price.Held`).  Times a hundred nothing is lost
(`Script.Price.timesHundred?_cases`), and the cents are rounded once more.  So an amount may be
rounded twice, which makes a cent too much of one that falls short of a half by less than the first
rounding adds (`Script.Price.round_round`).
-/

namespace PageScript

namespace Numeral

theorem value_append (ds es : List Char) :
    value (ds ++ es) = value ds * 10 ^ es.length + value es := by
  induction es using List.reverseRecOn with
  | nil => simp [value]
  | append_singleton es c ih =>
    rw [← List.append_assoc, value_concat, value_concat, ih, List.length_append,
      List.length_singleton, pow_succ]
    ring

theorem value_cons (c : Char) (ds : List Char) :
    value (c :: ds) = digitValue c * 10 ^ ds.length + value ds := by
  have h := value_append [c] ds
  simpa [value] using h

theorem digitValue_le {c : Char} (h : c.isDigit = true) : digitValue c ≤ 9 := by
  have hc : 48 ≤ c.toNat ∧ c.toNat ≤ 57 := by
    simpa [Char.isDigit, UInt32.le_iff_toNat_le] using h
  rw [digitValue]
  omega

theorem value_lt {ds : List Char} (h : ∀ c ∈ ds, c.isDigit = true) : value ds < 10 ^ ds.length := by
  induction ds with
  | nil => simp [value]
  | cons c ds ih =>
    obtain ⟨hc, hds⟩ := List.forall_mem_cons.1 h
    have hle := digitValue_le hc
    have hlt := ih hds
    rw [value_cons, List.length_cons, pow_succ]
    nlinarith

end Numeral

namespace Script.Price

theorem le_round_iff {n : ℤ} {x : ℚ} : n ≤ round x ↔ (n : ℚ) - 1 / 2 ≤ x := by
  rw [round_eq, Int.le_floor]
  constructor <;> intro h <;> linarith

theorem round_eq_iff {n : ℤ} {x : ℚ} :
    round x = n ↔ (n : ℚ) - 1 / 2 ≤ x ∧ x < (n : ℚ) + 1 / 2 := by
  rw [round_eq, Int.floor_eq_iff]
  constructor <;> rintro ⟨hlow, hhigh⟩ <;> constructor <;> linarith

/-- The dollars of an amount. -/
def Amount.value (a : Amount) : ℚ := a.units / 10 ^ a.places

theorem round_value (a : Amount) : (a.round : ℤ) = round a.value := by
  symm
  have hten : (0 : ℚ) < 10 ^ a.places := by positivity
  have hpos : 0 < 2 * 10 ^ a.places := by positivity
  have hlow : a.round * (2 * 10 ^ a.places) ≤ 2 * a.units + 10 ^ a.places := Nat.div_mul_le_self _ _
  have hhigh : 2 * a.units + 10 ^ a.places < (a.round + 1) * (2 * 10 ^ a.places) :=
    Nat.lt_mul_of_div_lt (Nat.lt_succ_self _) hpos
  have hlow : (a.round : ℚ) * (2 * 10 ^ a.places) ≤ 2 * a.units + 10 ^ a.places := by
    exact_mod_cast hlow
  have hhigh : 2 * (a.units : ℚ) + 10 ^ a.places < (a.round + 1) * (2 * 10 ^ a.places) := by
    exact_mod_cast hhigh
  rw [round_eq_iff, Amount.value, le_div_iff₀ hten, div_lt_iff₀ hten]
  push_cast
  constructor <;> linarith

theorem bound_eq : bound = 79228162514264337593543950336 := by
  decide +kernel

/-! ### Times a hundred -/

/-- Zeros are dropped without loss. -/
theorem reduce?_zeros {q drop places : ℕ} (hdrop : drop ≠ 0) (hq : q < bound) :
    reduce? (q * 10 ^ drop) drop false places = some ⟨q, places⟩ := by
  obtain ⟨k, rfl⟩ := Nat.exists_eq_succ_of_ne_zero hdrop
  have hten : 0 < 10 ^ (k + 1) := by positivity
  have hhalf : 10 ^ (k + 1) / 2 ≠ 0 := by
    have hone := Nat.one_le_pow k 10 (by decide)
    rw [pow_succ]
    omega
  rw [reduce?.eq_def]
  simp [Numeral.tenTo, Nat.mul_div_cancel _ hten, hq.not_ge, hhalf]

/-- One zero is dropped, and another one if that does not do. -/
theorem reduce?_hundred {units places : ℕ} (hunits : units < bound) :
    reduce? (100 * units) 1 false places =
      if 10 * units < bound then some ⟨10 * units, places⟩
      else if places = 0 then none else some ⟨units, places - 1⟩ := by
  have hfactor : 100 * units = 10 * units * 10 ^ 1 := by ring
  split_ifs with hten hplaces
  · rw [hfactor, reduce?_zeros one_ne_zero hten]
  · rw [hfactor, reduce?.eq_def]
    simp [Numeral.tenTo, hplaces, not_lt.1 hten]
  · obtain ⟨p, rfl⟩ := Nat.exists_eq_succ_of_ne_zero hplaces
    rw [hfactor, reduce?.eq_def]
    simp only [Numeral.tenTo, Nat.pow_eq, Nat.mul_div_cancel _ (by decide : 0 < 10 ^ 1),
      Nat.mul_mod_left, if_pos (not_lt.1 hten)]
    have hrest : 10 * units = units * 10 ^ 1 := by ring
    rw [hrest]
    exact reduce?_zeros one_ne_zero hunits

theorem placesOver_hundred {units : ℕ} (hunits : units < bound) (hover : bound ≤ 100 * units) :
    placesOver (100 * units) = 1 ∨ placesOver (100 * units) = 2 := by
  rw [bound_eq] at hunits hover
  have hne : 100 * units ≠ 0 := by omega
  have hlow : 96 ≤ (100 * units).log2 := (Nat.le_log2 hne).2 (by norm_num; omega)
  have hhigh : (100 * units).log2 < 103 := (Nat.log2_lt hne).2 (by norm_num; omega)
  rw [placesOver]
  omega

/-- Nothing is lost, unless the amount is far beyond every price. -/
theorem timesHundred?_cases {a : Amount} (hunits : a.units < bound) :
    (∃ b, a.timesHundred? = some b ∧ b.value = 100 * a.value) ∨
      a.timesHundred? = none ∧ a.places < 2 ∧ bound ≤ 100 * a.units := by
  obtain ⟨units, places⟩ := a
  change units < bound at hunits
  simp only [Amount.timesHundred?, Amount.value]
  split_ifs with hzero hfits hplaces
  · refine .inl ⟨_, rfl, ?_⟩
    have hzero : units = 0 := by omega
    simp [hzero]
  · refine .inl ⟨_, rfl, ?_⟩
    push_cast
    ring
  · have hover := not_lt.1 hfits
    refine .inr ⟨rfl, ?_, hover⟩
    rcases placesOver_hundred hunits hover with h | h <;> omega
  · have hover := not_lt.1 hfits
    have hpow (p : ℕ) : (10 : ℚ) ^ (p + 1) = 10 * 10 ^ p := by ring
    rcases placesOver_hundred hunits hover with h | h
    · rw [h, reduce?_hundred hunits]
      obtain ⟨p, rfl⟩ := Nat.exists_eq_succ_of_ne_zero (by omega : places ≠ 0)
      rw [Nat.succ_sub_one]
      split_ifs with hten hp
      · refine .inl ⟨_, rfl, ?_⟩
        push_cast
        rw [hpow]
        field_simp
        ring
      · exact .inr ⟨rfl, by omega, hover⟩
      · obtain ⟨p, rfl⟩ := Nat.exists_eq_succ_of_ne_zero hp
        refine .inl ⟨_, rfl, ?_⟩
        rw [Nat.succ_sub_one, hpow, hpow]
        field_simp
        ring
    · obtain ⟨p, rfl⟩ := Nat.exists_eq_add_of_le' (by omega : 2 ≤ places)
      have hfactor : 100 * units = units * 10 ^ 2 := by ring
      rw [h, hfactor, reduce?_zeros two_ne_zero hunits]
      refine .inl ⟨_, rfl, ?_⟩
      rw [Nat.add_sub_cancel, hpow, hpow]
      field_simp
      ring

/-! ### What is held of an amount -/

/-- How an amount of dollars with `k` decimal places can be held: as it is, rounded at a place that
fills up what there is room for, or not at all. -/
inductive Held (k : ℕ) (x : ℚ) : Option Amount → Prop
  | exact {a : Amount} (hunits : a.units < bound) (hvalue : a.value = x) : Held k x (some a)
  | rounded {units places : ℕ} (hunits : units < bound)
    (hround : round (x * 10 ^ places) = (units : ℤ)) (hplaces : places < k)
    (hfull : places = maxPlaces ∨ bound ≤ 10 * units + 9) : Held k x (some ⟨units, places⟩)
  | tooLarge (hlarge : (bound : ℚ) - 1 ≤ x) : Held k x none

/-- The digit that does not fit decides how it is rounded, whatever comes after it. -/
theorem held_roundOff? {units places digit k : ℕ} {x : ℚ} (hunits : units < bound)
    (hplaces : places < k) (hfull : places = maxPlaces ∨ bound ≤ 10 * units + digit)
    (hdigit : digit ≤ 9) (hlow : (units : ℚ) + digit / 10 ≤ x * 10 ^ places)
    (hhigh : x * 10 ^ places < (units : ℚ) + (digit + 1) / 10) :
    Held k x (roundOff? units places digit) := by
  have hle : (digit : ℚ) ≤ 9 := by exact_mod_cast hdigit
  rw [roundOff?.eq_def]
  split_ifs with hdown hfits
  · have hdown : (digit : ℚ) + 1 ≤ 5 := by exact_mod_cast hdown
    have hnonneg : (0 : ℚ) ≤ digit := Nat.cast_nonneg digit
    refine .rounded hunits (round_eq_iff.2 ?_) hplaces (hfull.imp_right fun h => by omega)
    push_cast
    constructor <;> linarith
  · have hup : (5 : ℚ) ≤ digit := by exact_mod_cast not_lt.1 hdown
    refine .rounded hfits (round_eq_iff.2 ?_) hplaces (hfull.imp_right fun h => by omega)
    push_cast
    constructor <;> linarith
  · have hup : (5 : ℚ) ≤ digit := by exact_mod_cast not_lt.1 hdown
    have heq : units = 79228162514264337593543950335 := by
      rw [bound_eq] at hunits hfits
      omega
    rcases places with _ | p
    · refine .tooLarge ?_
      rw [bound_eq]
      rw [heq] at hlow
      norm_num at hlow ⊢
      linarith
    · have hpow : x * 10 ^ (p + 1) = 10 * (x * 10 ^ p) := by ring
      rw [hpow, heq] at hlow hhigh
      rw [heq]
      refine .rounded (by decide +kernel) (round_eq_iff.2 ?_) (by omega) (.inr (by decide +kernel))
      norm_num at hlow hhigh ⊢
      constructor <;> linarith

theorem held_addFraction? {ds : List Char} (hds : ∀ c ∈ ds, c.isDigit = true) {units places : ℕ}
    (hunits : units < bound) :
    Held (places + ds.length)
      (((units * 10 ^ ds.length + Numeral.value ds : ℕ) : ℚ) / 10 ^ (places + ds.length))
      (addFraction? units places ds) := by
  induction ds generalizing units places with
  | nil => exact .exact hunits (by simp [Amount.value, Numeral.value])
  | cons c cs ih =>
    obtain ⟨hc, hcs⟩ := List.forall_mem_cons.1 hds
    rw [addFraction?, List.length_cons, Numeral.value_cons]
    split_ifs with hfull
    · have hlt : (Numeral.value cs : ℚ) < 10 ^ cs.length := by
        exact_mod_cast Numeral.value_lt hcs
      have hnonneg : (0 : ℚ) ≤ Numeral.value cs := Nat.cast_nonneg _
      have hten : (0 : ℚ) < 10 ^ cs.length := by positivity
      have hx : ((units * 10 ^ (cs.length + 1) +
            (Numeral.digitValue c * 10 ^ cs.length + Numeral.value cs) : ℕ) : ℚ) /
          10 ^ (places + (cs.length + 1)) * 10 ^ places =
          units + (Numeral.digitValue c + Numeral.value cs / 10 ^ cs.length) / 10 := by
        push_cast
        rw [pow_add (10 : ℚ) places, pow_succ]
        field_simp
      have hpart : (Numeral.value cs : ℚ) / 10 ^ cs.length < 1 := (div_lt_one hten).2 hlt
      have hpart' : (0 : ℚ) ≤ Numeral.value cs / 10 ^ cs.length := by positivity
      exact held_roundOff? hunits (by omega) hfull (Numeral.digitValue_le hc)
        (by rw [hx]; linarith) (by rw [hx]; linarith)
    · obtain ⟨-, hnext⟩ := not_or.1 hfull
      have hih : Held (places + 1 + cs.length) _ (addFraction? _ (places + 1) cs) :=
        ih hcs (not_le.1 hnext)
      have hvalue : (10 * units + Numeral.digitValue c) * 10 ^ cs.length + Numeral.value cs =
          units * 10 ^ (cs.length + 1) +
            (Numeral.digitValue c * 10 ^ cs.length + Numeral.value cs) := by ring
      have hplaces : places + 1 + cs.length = places + (cs.length + 1) := by ring
      rwa [hvalue, hplaces] at hih

/-! ### Rounding twice -/

/-- Rounded at a place behind the cents first, an amount is as many cents as it is when rounded
once, unless it falls short of a half by no more than what the first rounding may add. -/
theorem round_round {x : ℚ} {p : ℕ} (hp : 3 ≤ p) :
    round (100 * ((round (x * 10 ^ p) : ℚ) / 10 ^ p)) = round (100 * x) ∨
      round (100 * ((round (x * 10 ^ p) : ℚ) / 10 ^ p)) = round (100 * x) + 1 ∧
        (round (100 * x) : ℚ) + 1 / 2 - 100 * x ≤ 50 / 10 ^ p := by
  obtain ⟨k, rfl⟩ := Nat.exists_eq_add_of_le' hp
  have hpow : (10 : ℚ) ^ (k + 3) = 1000 * 10 ^ k := by ring
  have hten : (1 : ℚ) ≤ 10 ^ k := one_le_pow₀ (by norm_num)
  obtain ⟨hlow, hhigh⟩ := round_eq_iff.1 (rfl : round (100 * x) = _)
  obtain ⟨hlow', hhigh'⟩ := round_eq_iff.1 (rfl : round (x * 10 ^ (k + 3)) = _)
  set cents := round (100 * x)
  set units := round (x * 10 ^ (k + 3))
  -- A half of a cent is itself a number at that place, so that rounding there does not cross it.
  have hhalf : ((5 * (2 * cents - 1) * 10 ^ k : ℤ) : ℚ) ≤ units := by
    have hle : 5 * (2 * cents - 1) * 10 ^ k ≤ units := by
      refine le_round_iff.2 ?_
      push_cast
      rw [hpow]
      nlinarith
    exact_mod_cast hle
  push_cast at hhalf
  have hbelow : (cents : ℚ) - 1 / 2 ≤ 100 * (units / 10 ^ (k + 3)) := by
    rw [hpow, mul_div_assoc', le_div_iff₀ (by positivity)]
    linarith
  have habove : 100 * ((units : ℚ) / 10 ^ (k + 3)) ≤ 100 * x + 50 / 10 ^ (k + 3) := by
    have hle : (units : ℚ) ≤ x * 10 ^ (k + 3) + 1 / 2 := by linarith
    calc 100 * ((units : ℚ) / 10 ^ (k + 3))
        ≤ 100 * ((x * 10 ^ (k + 3) + 1 / 2) / 10 ^ (k + 3)) := by gcongr
      _ = 100 * x + 50 / 10 ^ (k + 3) := by field_simp; ring
  have hsmall : (50 : ℚ) / 10 ^ (k + 3) ≤ 1 / 20 := by
    rw [hpow, div_le_div_iff₀ (by positivity) (by norm_num)]
    linarith
  rcases lt_or_ge (100 * ((units : ℚ) / 10 ^ (k + 3))) (cents + 1 / 2) with hlt | hge
  · exact .inl (round_eq_iff.2 ⟨hbelow, hlt⟩)
  · refine .inr ⟨round_eq_iff.2 ?_, by linarith⟩
    push_cast
    constructor <;> linarith

end Script.Price

end PageScript
