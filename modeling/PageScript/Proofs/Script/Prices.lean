import PageScript.Proofs.Script.Rounding
import PageScript.Proofs.Script.Rules

/-!
# Prices

The price of a script is its first amount in whole cents, a half upwards, and the default price when
there is none or it is too large (`Script.price_nearly_exact`).  An amount with more than eleven
decimal places may be rounded twice, and then cost a cent too much.
-/

namespace PageScript.Script.Price

open Text

/-- The first amount in a text: its digits before the point, and those after the point if it is
followed by any. -/
inductive FirstAmount : List Char → Written → Prop
  | whole {before whole after : List Char} (hbefore : ∀ c ∈ before, c.isDigit = false)
    (hsome : whole ≠ []) (hwhole : ∀ c ∈ whole, c.isDigit = true)
    (hafter : ∀ c ∈ after.head?, c.isDigit = false)
    (hpoint : ∀ d rest, after = '.' :: d :: rest → d.isDigit = false) :
    FirstAmount (before ++ (whole ++ after)) ⟨whole, []⟩
  | decimal {before whole fraction after : List Char}
    (hbefore : ∀ c ∈ before, c.isDigit = false) (hsome : whole ≠ [])
    (hwhole : ∀ c ∈ whole, c.isDigit = true) (hsome' : fraction ≠ [])
    (hfraction : ∀ c ∈ fraction, c.isDigit = true)
    (hafter : ∀ c ∈ after.head?, c.isDigit = false) :
    FirstAmount (before ++ (whole ++ '.' :: (fraction ++ after))) ⟨whole, fraction⟩

theorem find?_append {before whole after : List Char} (hbefore : ∀ c ∈ before, c.isDigit = false)
    (hsome : whole ≠ []) (hwhole : ∀ c ∈ whole, c.isDigit = true)
    (hafter : ∀ c ∈ after.head?, c.isDigit = false) :
    find? (before ++ (whole ++ after)) = some ⟨whole, fractionAfter after⟩ := by
  have hstart : (before ++ (whole ++ after)).dropWhile (fun c => !c.isDigit) = whole ++ after := by
    obtain ⟨d, ds, rfl⟩ := List.exists_cons_of_ne_nil hsome
    refine (takeWhile_dropWhile_iff.2 ⟨rfl, fun c hc => by simp [hbefore c hc], ?_⟩).2
    rintro c ⟨⟩
    simp [hwhole d List.mem_cons_self]
  obtain ⟨htake, hdrop⟩ := takeWhile_dropWhile_iff.2 ⟨rfl, hwhole, hafter⟩
  have hne : (whole ++ after).isEmpty = false := by simp [hsome]
  simp only [find?, hstart, htake, hdrop, hne]
  rfl

theorem find?_eq_none_iff {cs : List Char} :
    find? cs = none ↔ ∀ c ∈ cs, c.isDigit = false := by
  simp only [find?]
  split_ifs with h
  · simpa [List.dropWhile_eq_nil_iff] using h
  · simpa [List.dropWhile_eq_nil_iff] using h

theorem fractionAfter_cases (after : List Char) :
    (fractionAfter after = [] ∧ ∀ d rest, after = '.' :: d :: rest → d.isDigit = false) ∨
      ∃ fraction rest, after = '.' :: (fraction ++ rest) ∧ fractionAfter after = fraction ∧
        fraction ≠ [] ∧ (∀ c ∈ fraction, c.isDigit = true) ∧
          ∀ c ∈ rest.head?, c.isDigit = false := by
  rw [fractionAfter.eq_def]
  split
  · rename_i cs
    obtain ⟨hcs, hdigits, hrest⟩ := takeWhile_dropWhile_iff.1
      ⟨rfl, (rfl : cs.dropWhile Char.isDigit = cs.dropWhile Char.isDigit)⟩
    rcases eq_or_ne (cs.takeWhile Char.isDigit) [] with hnil | hsome
    · refine .inl ⟨hnil, fun d rest h => ?_⟩
      rw [(List.cons.inj h).2, List.takeWhile_cons] at hnil
      split_ifs at hnil with hd
      simpa using hd
    · exact .inr ⟨_, _, congrArg _ hcs, rfl, hsome, hdigits, hrest⟩
  · rename_i hpoint
    exact .inl ⟨rfl, fun d rest h => absurd h (hpoint _)⟩

theorem find?_eq_some_iff {cs : List Char} {w : Written} :
    find? cs = some w ↔ FirstAmount cs w := by
  constructor
  · intro h
    obtain ⟨hcs, hbefore, hstart⟩ := takeWhile_dropWhile_iff.1
      ⟨rfl, (rfl : cs.dropWhile (fun c => !c.isDigit) = _)⟩
    rcases hrest : cs.dropWhile fun c => !c.isDigit with _ | ⟨d, rest⟩
    · rw [find?, hrest] at h
      cases h
    rw [hrest] at hcs hstart
    have hd : d.isDigit = true := by simpa using hstart d rfl
    obtain ⟨hwhole, hdigits, hafter⟩ := takeWhile_dropWhile_iff.1
      ⟨rfl, (rfl : (d :: rest).dropWhile Char.isDigit = _)⟩
    have hbefore : ∀ c ∈ cs.takeWhile fun c => !c.isDigit, c.isDigit = false := by
      simpa using hbefore
    have hsome : (d :: rest).takeWhile Char.isDigit ≠ [] := by
      simp [hd]
    rw [hcs, hwhole, find?_append hbefore hsome hdigits hafter] at h
    rw [hcs, hwhole]
    cases h
    rcases fractionAfter_cases ((d :: rest).dropWhile Char.isDigit) with
      ⟨hnil, hpoint⟩ | ⟨fraction, rest, heq, hfraction, hsome', hdigits', hrest⟩
    · rw [hnil]
      exact .whole hbefore hsome hdigits hafter hpoint
    · rw [hfraction, heq]
      exact .decimal hbefore hsome hdigits hsome' hdigits' hrest
  · intro h
    cases h with
    | whole hbefore hsome hwhole hafter hpoint =>
      rename_i after
      rw [find?_append hbefore hsome hwhole hafter]
      rcases fractionAfter_cases after with ⟨hnil, -⟩ | ⟨fraction, rest, heq, -, hsome', hdigits, -⟩
      · rw [hnil]
      · obtain ⟨d, ds, rfl⟩ := List.exists_cons_of_ne_nil hsome'
        have hd := hdigits d List.mem_cons_self
        rw [hpoint d _ heq] at hd
        cases hd
    | decimal hbefore hsome hwhole hsome' hfraction hafter =>
      rw [find?_append hbefore hsome hwhole (by rintro c ⟨⟩; rfl), fractionAfter,
        (takeWhile_dropWhile_iff.2 ⟨rfl, hfraction, hafter⟩).1]

theorem FirstAmount.isDigit_fraction {cs : List Char} {w : Written} (h : FirstAmount cs w) :
    ∀ c ∈ w.fraction, c.isDigit = true := by
  cases h with
  | whole => exact List.forall_mem_nil _
  | decimal hbefore hsome hwhole hsome' hfraction hafter => exact hfraction

/-- The dollars that are written. -/
def Written.dollars (w : Written) : ℚ :=
  Numeral.value w.whole + Numeral.value w.fraction / 10 ^ w.fraction.length

theorem held_amount? {w : Written} (hdigits : ∀ c ∈ w.fraction, c.isDigit = true) :
    Held w.fraction.length w.dollars w.amount? := by
  rw [Written.amount?, wholeUnits?]
  split_ifs with hwhole
  · have hheld : Held (0 + w.fraction.length) _ (addFraction? _ 0 w.fraction) :=
      held_addFraction? hdigits hwhole
    have hdollars : ((Numeral.value w.whole * 10 ^ w.fraction.length +
        Numeral.value w.fraction : ℕ) : ℚ) / 10 ^ (0 + w.fraction.length) = w.dollars := by
      rw [Written.dollars, zero_add]
      push_cast
      field_simp
    rwa [hdollars, zero_add] at hheld
  · refine .tooLarge ?_
    have hlarge : (bound : ℚ) ≤ Numeral.value w.whole := by exact_mod_cast not_lt.1 hwhole
    have hnonneg : (0 : ℚ) ≤ Numeral.value w.fraction / 10 ^ w.fraction.length := by positivity
    rw [Written.dollars]
    linarith

/-- The price in cents; the default takes the place of what is too much. -/
def charged (cents : ℕ) : ℕ := if cents < 18446744073709551616 then cents else 500

/-- The cents are those of `x` dollars, a half upwards.  If these have more than eleven decimal
places and fall short of a half by next to nothing, it may be one cent more. -/
def NearlyExact (places : ℕ) (x : ℚ) (cents : ℕ) : Prop :=
  (cents : ℤ) = round (100 * x) ∨
    11 < places ∧ (cents : ℤ) = round (100 * x) + 1 ∧
      (round (100 * x) : ℚ) + 1 / 2 - 100 * x ≤ 5 / 10 ^ 10

theorem NearlyExact.exact {places cents : ℕ} {x : ℚ} (h : NearlyExact places x cents)
    (hplaces : places ≤ 11) : (cents : ℤ) = round (100 * x) := by
  rcases h with h | ⟨hmany, -⟩
  · exact h
  · omega

theorem charged_of_le {cents : ℕ} (h : 18446744073709551616 ≤ cents) : charged cents = 500 :=
  if_neg h.not_gt

theorem exists_round_of_large {x : ℚ} (h : 18446744073709551616 ≤ 100 * x) :
    ∃ cents : ℕ, (cents : ℤ) = round (100 * x) ∧ 18446744073709551616 ≤ cents := by
  have hle : (18446744073709551616 : ℤ) ≤ round (100 * x) :=
    le_round_iff.2 (by push_cast; linarith)
  obtain ⟨cents, hcents⟩ := Int.eq_ofNat_of_zero_le (le_trans (by norm_num) hle)
  exact ⟨cents, hcents.symm, by omega⟩

/-- The price that a script with these digits names. -/
def Written.price (w : Written) : UInt64 := w.cents?.getD Effect.defaultLockPrice

/-- What is held is charged exactly. -/
theorem price_of_amount? {w : Written} {a : Amount} (hamount : w.amount? = some a)
    (hunits : a.units < bound) :
    ∃ cents : ℕ, (cents : ℤ) = round (100 * a.value) ∧ w.price.toNat = charged cents := by
  have hcents : w.cents? = a.timesHundred?.bind fun b =>
      if b.round < 18446744073709551616 then some (UInt64.ofNat b.round) else none := by
    rw [Written.cents?, hamount]
    rfl
  rcases timesHundred?_cases hunits with ⟨b, htimes, hvalue⟩ | ⟨htimes, hplaces, hover⟩
  · refine ⟨b.round, by rw [round_value, hvalue], ?_⟩
    rw [Written.price, hcents, htimes, Option.bind_some, charged]
    split_ifs with hfits
    · exact UInt64.toNat_ofNat_of_lt' hfits
    · rfl
  · have hlarge : 18446744073709551616 ≤ 100 * a.value := by
      have hten : (10 : ℚ) ^ a.places ≤ 10 ^ 1 := by
        gcongr
        · norm_num
        · omega
      have hover : (bound : ℚ) ≤ 100 * a.units := by exact_mod_cast hover
      rw [bound_eq] at hover
      rw [Amount.value, mul_div_assoc', le_div_iff₀ (by positivity)]
      norm_num at hover hten ⊢
      linarith
    obtain ⟨cents, hround, hle⟩ := exists_round_of_large hlarge
    refine ⟨cents, hround, ?_⟩
    rw [Written.price, hcents, htimes, charged_of_le hle]
    rfl

/-- There is room for so few places only when the amount is large. -/
theorem large_of_places {x y : ℚ} {places : ℕ} (hplaces : places ≤ 10)
    (hfull : (bound : ℚ) ≤ 10 * y + 14) (hx : y ≤ x * 10 ^ places) :
    18446744073709551616 ≤ 100 * x := by
  have hten : (10 : ℚ) ^ places ≤ 10 ^ 10 := by
    gcongr
    norm_num
  rw [bound_eq] at hfull
  by_contra hlt
  have hlt : x < 184467440737095516.16 := by
    norm_num at hlt ⊢
    linarith
  have hle : x * 10 ^ places ≤ 184467440737095516.16 * 10 ^ 10 := by gcongr
  norm_num at hfull hle
  linarith

/-- An amount that is rounded at a place before the twelfth is too large for a price, before and
after. -/
theorem large_of_round {x : ℚ} {units places : ℕ} (hplaces : places ≤ 10)
    (hround : round (x * 10 ^ places) = (units : ℤ))
    (hfull : places = maxPlaces ∨ bound ≤ 10 * units + 9) :
    18446744073709551616 ≤ 100 * x ∧
      18446744073709551616 ≤ 100 * (Amount.mk units places).value := by
  have hfull : bound ≤ 10 * units + 9 := by
    rcases hfull with rfl | hfull
    · exact absurd hplaces (by decide)
    · exact hfull
  have hfull : (bound : ℚ) ≤ 10 * ((units : ℚ) - 1 / 2) + 14 := by
    have hfull : (bound : ℚ) ≤ 10 * units + 9 := by exact_mod_cast hfull
    linarith
  have hlow := (round_eq_iff.1 hround).1
  push_cast at hlow
  have hvalue : (units : ℚ) - 1 / 2 ≤ (Amount.mk units places).value * 10 ^ places := by
    rw [Amount.value, div_mul_cancel₀ _ (by positivity)]
    linarith
  exact ⟨large_of_places hplaces hfull hlow, large_of_places hplaces hfull hvalue⟩

/-- The cents of an amount that is rounded at a later place than the eleventh. -/
theorem nearlyExact_of_round {x : ℚ} {units places k cents : ℕ} (hplaces : 11 ≤ places)
    (hk : places < k) (hround : round (x * 10 ^ places) = (units : ℤ))
    (hcents : (cents : ℤ) = round (100 * (Amount.mk units places).value)) :
    NearlyExact k x cents := by
  have hunits : (units : ℚ) = (round (x * 10 ^ places) : ℚ) := by
    rw [hround]
    rfl
  have hsmall : (50 : ℚ) / 10 ^ places ≤ 5 / 10 ^ 10 := by
    have hten : (10 : ℚ) ^ 11 ≤ 10 ^ places := pow_le_pow_right₀ (by norm_num) hplaces
    rw [div_le_div_iff₀ (by positivity) (by positivity)]
    linarith
  rw [Amount.value, hunits] at hcents
  rcases round_round (x := x) (by omega : 3 ≤ places) with h | ⟨h, hshort⟩
  · exact .inl (hcents.trans h)
  · exact .inr ⟨by omega, hcents.trans h, hshort.trans hsmall⟩

theorem nearlyExact_price {w : Written} (hdigits : ∀ c ∈ w.fraction, c.isDigit = true) :
    ∃ cents, NearlyExact w.fraction.length w.dollars cents ∧ w.price.toNat = charged cents := by
  have hheld := held_amount? hdigits
  rcases hamount : w.amount? with _ | a <;> rw [hamount] at hheld
  · cases hheld with
    | tooLarge hlarge =>
      rw [bound_eq] at hlarge
      have hlarge : 18446744073709551616 ≤ 100 * w.dollars := by
        norm_num at hlarge
        linarith
      obtain ⟨cents, hround, hle⟩ := exists_round_of_large hlarge
      refine ⟨cents, .inl hround, ?_⟩
      rw [charged_of_le hle, Written.price, Written.cents?, hamount]
      rfl
  cases hheld with
  | exact hunits hvalue =>
    obtain ⟨cents, hround, hprice⟩ := price_of_amount? hamount hunits
    exact ⟨cents, .inl (by rw [hround, hvalue]), hprice⟩
  | rounded hunits hround hplaces hfull =>
    rename_i units places
    obtain ⟨cents, hcents, hprice⟩ := price_of_amount? hamount hunits
    rcases Nat.lt_or_ge places 11 with hfew | hmany
    · -- Both are charged the default, so that they need not be equal.
      obtain ⟨hexact, hheld⟩ := large_of_round (by omega) hround hfull
      obtain ⟨exact, hexact, hle⟩ := exists_round_of_large hexact
      obtain ⟨cents', hcents', hle'⟩ := exists_round_of_large hheld
      have heq : cents = cents' := by exact_mod_cast hcents.trans hcents'.symm
      refine ⟨exact, .inl hexact, ?_⟩
      rw [hprice, heq, charged_of_le hle', charged_of_le hle]
    · exact ⟨cents, nearlyExact_of_round hmany hplaces hround hcents, hprice⟩

end PageScript.Script.Price

namespace PageScript.Script

open Text Price

theorem lockPrice_of_firstAmount {text : String} {w : Written} (h : FirstAmount text.toList w) :
    Rule.lockPrice text = w.price := by
  rw [Rule.lockPrice, find?_eq_some_iff.2 h]
  rfl

theorem lockPrice_of_no_digit {text : String} (h : ∀ c ∈ text.toList, c.isDigit = false) :
    Rule.lockPrice text = Effect.defaultLockPrice := by
  rw [Rule.lockPrice, find?_eq_none_iff.2 h]
  rfl

/-- Where the rule for prices applies, what it builds stands behind the watermark. -/
theorem interpret_of_price (further : List Rule) (now : Int64) {text : String}
    (h : Occurs "pay".toList text.toList ∨ Occurs "unlock".toList text.toList) :
    (interpret further now text).effects =
      ruleEffects [Rule.watermark] (ofText text now) ++ Rule.lockEffects (Rule.lockPrice text) ++
        ruleEffects (Rule.mint :: further) (ofText text now) := by
  have hbuild : Rule.lockPages.build (ofText text now) =
      Rule.lockEffects (Rule.lockPrice text) := rfl
  have hrules : Rule.builtIn ++ further =
      [Rule.watermark] ++ Rule.lockPages :: (Rule.mint :: further) := rfl
  have happlies := (applies_lockPages_iff text now).2 h
  have hne : Rule.lockPages.build (ofText text now) ≠ [] := by
    rw [hbuild]
    exact List.cons_ne_nil _ _
  rw [interpret, hrules, effects_of_applies _ _ happlies hne, hbuild]

/-- The price is the first amount in cents, a half away from zero, but for a cent too much that an
amount with more than eleven decimal places may cost; and it is five dollars if there is no amount
or it is too large. -/
theorem price_nearly_exact (further : List Rule) (now : Int64) {text : String}
    (h : Occurs "pay".toList text.toList ∨ Occurs "unlock".toList text.toList) :
    let s := ofText text now
    ∃ price : UInt64,
      (interpret further now text).effects =
          ([Rule.watermark].filter (·.applies s)).flatMap (·.build s) ++
            [.lockPages [2, 3] (some price),
              .log ("Will lock pages [2,3] for " ++ Numeral.text price.toNat ++ " cents.")] ++
            ((Rule.mint :: further).filter (·.applies s)).flatMap (·.build s) ∧
        ((∀ c ∈ text.toList, c.isDigit = false) → price.toNat = 500) ∧
        ∀ w, FirstAmount text.toList w → ∃ cents : ℕ,
          price.toNat = (if cents < 18446744073709551616 then cents else 500) ∧
            ((cents : ℤ) = round (100 * w.dollars) ∨
              11 < w.fraction.length ∧ (cents : ℤ) = round (100 * w.dollars) + 1 ∧
                (round (100 * w.dollars) : ℚ) + 1 / 2 - 100 * w.dollars ≤ 5 / 10 ^ 10) := by
  refine ⟨Rule.lockPrice text, interpret_of_price further now h, fun hnone => ?_, fun w hw => ?_⟩
  · rw [lockPrice_of_no_digit hnone]
    rfl
  · obtain ⟨cents, hcents, hprice⟩ := nearlyExact_price hw.isDigit_fraction
    rw [lockPrice_of_firstAmount hw]
    exact ⟨cents, hprice, hcents⟩

theorem price_nearly_exact_half_cent :
    (interpret [] 0 "unlock for $12.345").effects =
      [.lockPages [2, 3] (some 1235), .log "Will lock pages [2,3] for 1235 cents."] := by
  have happlies : Rule.lockPages.applies (ofText "unlock for $12.345" 0) = true := by
    decide +kernel
  obtain ⟨price, heffects, -, hfirst⟩ := price_nearly_exact [] 0
    ((applies_lockPages_iff "unlock for $12.345" 0).1 happlies)
  have hamount : FirstAmount "unlock for $12.345".toList ⟨['1', '2'], ['3', '4', '5']⟩ :=
    find?_eq_some_iff.1 rfl
  obtain ⟨cents, hprice, hcents⟩ := hfirst _ hamount
  have hround : round (100 * Written.dollars ⟨['1', '2'], ['3', '4', '5']⟩) = 1235 := by
    have hwhole : Numeral.value ['1', '2'] = 12 := by decide
    have hfraction : Numeral.value ['3', '4', '5'] = 345 := by decide
    rw [round_eq_iff, Written.dollars, hwhole, hfraction]
    norm_num
  rcases hcents with hcents | ⟨hlength, -⟩
  · have hcents : cents = 1235 := by exact_mod_cast hcents.trans hround
    have hprice : price = 1235 := UInt64.toNat_inj.1 (by rw [hprice, hcents]; rfl)
    have hspelled : Numeral.text (UInt64.toNat 1235) = "1235" := by decide +kernel
    rw [heffects, hprice, hspelled]
    rfl
  · exact absurd hlength (by decide)

/-- A cent is charged for less than half a cent. -/
theorem less_than_half_cent :
    FirstAmount "pay 0.00499999999999999999999999999999".toList
        ⟨['0'], "00499999999999999999999999999999".toList⟩ ∧
      round (100 * Written.dollars ⟨['0'], "00499999999999999999999999999999".toList⟩) = 0 ∧
      (interpret [] 0 "pay 0.00499999999999999999999999999999").effects =
        [.lockPages [2, 3] (some 1), .log "Will lock pages [2,3] for 1 cents."] := by
  refine ⟨find?_eq_some_iff.1 rfl, ?_, ?_⟩
  · have hwhole : Numeral.value ['0'] = 0 := by decide
    have hfraction : Numeral.value "00499999999999999999999999999999".toList =
        499999999999999999999999999999 := by decide +kernel
    have hlength : "00499999999999999999999999999999".toList.length = 32 := by decide +kernel
    rw [round_eq_iff, Written.dollars, hwhole, hfraction, hlength]
    norm_num
  · have happlies : Rule.lockPages.applies
        (ofText "pay 0.00499999999999999999999999999999" 0) = true := by decide +kernel
    have hplan := interpret_of_price [] 0 ((applies_lockPages_iff _ 0).1 happlies)
    have hprice : Rule.lockPrice "pay 0.00499999999999999999999999999999" = 1 := by
      decide +kernel
    have hspelled : Numeral.text (UInt64.toNat 1) = "1" := by decide +kernel
    rw [hplan, hprice, Rule.lockEffects, hspelled]
    rfl

end PageScript.Script
