import PageScript.Proofs.Text.Searched
import PageScript.Script.Rule

/-!
# Keywords in lower-cased text

Looking for a keyword in the lower-cased text is looking for it in any case in the text itself
(`Script.mentions_iff`).  No character but those that `isLetter` knows has the letter for its lower
case (`lowerChar_eq_iff`).  The dotted capital I alone becomes two characters, an i and a combining
dot, so a keyword has to go on after an i (`IsKeyword`).
-/

namespace PageScript.Text

open Case

def smallLetters : List Char :=
  "abcdefghijklmnopqrstuvwxyz".toList

theorem smallLetter_cases : ∀ letter ∈ smallLetters,
    97 ≤ letter.toNat ∧ letter.toNat ≤ 122 ∧ letter.toUpper.toNat + 32 = letter.toNat ∧
      lowerChar letter = letter ∧ lowerChar letter.toUpper = letter := by
  decide +kernel

/-- Only the capital letters and the Kelvin sign lead down to the small letters. -/
theorem lowering_cases : ∀ r ∈ lowering,
    (r.first = 0x41 ∧ r.last = 0x5A ∧ r.offset = 32) ∨
      (r.first = 0x212A ∧ r.last = 0x212A ∧ r.offset = -8383) ∨
      122 < (r.first : Int) + r.offset := by
  decide +kernel

theorem toNat_ofNat_cases (n : Nat) : (Char.ofNat n).toNat = n ∨ (Char.ofNat n).toNat = 0 := by
  by_cases h : n.isValidChar
  · rw [Char.ofNat, dif_pos h]
    exact .inl rfl
  · rw [Char.ofNat, dif_neg h]
    exact .inr rfl

theorem lowerChar_eq_iff {letter c : Char} (h : letter ∈ smallLetters) :
    lowerChar c = letter ↔ isLetter letter c = true := by
  obtain ⟨hge, hle, hupper, hself, hlower⟩ := smallLetter_cases letter h
  constructor
  · intro hc
    rw [lowerChar] at hc
    split at hc
    · rename_i r hr
      have hcovers := List.find?_some hr
      simp only [Lowering.covers, Bool.and_eq_true, decide_eq_true_eq] at hcovers
      have hto := toNat_ofNat_cases (c.toNat + r.offset).toNat
      rw [hc] at hto
      rcases lowering_cases r (List.mem_of_find?_eq_some hr) with
        ⟨-, hlast, ho⟩ | ⟨hfirst, hlast, ho⟩ | hbig
      · have hcapital : c = letter.toUpper := Char.toNat_inj.1 (by omega)
        simp [isLetter, hcapital]
      · have hkelvin : c = '\u212A' := Char.toNat_inj.1 (by change _ = 8490; omega)
        have hk : letter = 'k' := Char.toNat_inj.1 (by change _ = 107; omega)
        simp [isLetter, hkelvin, hk]
      · omega
    · simp [isLetter, hc]
  · intro hc
    simp only [isLetter, Bool.or_eq_true, Bool.and_eq_true, beq_iff_eq] at hc
    rcases hc with (rfl | rfl) | ⟨rfl, rfl⟩
    · exact hself
    · exact hlower
    · decide +kernel

/-- A word of small letters that does not end in an i. -/
structure IsKeyword (word : List Char) : Prop where
  ne_nil : word ≠ []
  letters : ∀ letter ∈ word, letter ∈ smallLetters
  last : word.getLast? ≠ some 'i'

/-- What the characters that are not lowered one by one come to is in no keyword. -/
theorem smallLetter_apart : ∀ letter ∈ smallLetters,
    letter ≠ '\u0307' ∧ letter ≠ 'σ' ∧ letter ≠ 'ς' ∧ isLetter letter 'Σ' = false ∧
      isLetter letter 'İ' = false := by
  decide +kernel

/-- One character comes to one, which is a letter of a keyword just when the character is that
letter in either case; or it is the dotted capital I. -/
theorem lowerAfter_cons (before : List Char) (c : Char) (cs : List Char) :
    (∃ x, lowerAfter before (c :: cs) = x :: lowerAfter (c :: before) cs ∧
      ∀ letter ∈ smallLetters, (letter = x ↔ isLetter letter c = true)) ∨
    (lowerAfter before (c :: cs) = 'i' :: '\u0307' :: lowerAfter (c :: before) cs ∧
      ∀ letter ∈ smallLetters, isLetter letter c = false) := by
  rw [lowerAfter]
  split_ifs with hsigma hfinal hdotted
  · refine .inl ⟨'ς', rfl, fun letter h => ?_⟩
    obtain ⟨-, -, hne, hnot, -⟩ := smallLetter_apart letter h
    simp [hsigma, hne, hnot]
  · refine .inl ⟨'σ', rfl, fun letter h => ?_⟩
    obtain ⟨-, hne, -, hnot, -⟩ := smallLetter_apart letter h
    simp [hsigma, hne, hnot]
  · refine .inr ⟨rfl, fun letter h => ?_⟩
    obtain ⟨-, -, -, -, hnot⟩ := smallLetter_apart letter h
    rw [hdotted, hnot]
  · exact .inl ⟨lowerChar c, rfl, fun letter h => by rw [← lowerChar_eq_iff h, eq_comm]⟩

theorem startsWith_dot {word : List Char} (hne : word ≠ [])
    (hletters : ∀ letter ∈ word, letter ∈ smallLetters) (cs : List Char) :
    startsWith word ('\u0307' :: cs) = false := by
  rcases word with _ | ⟨letter, word⟩
  · exact absurd rfl hne
  · have hdot := (smallLetter_apart letter (hletters letter List.mem_cons_self)).1
    simp [startsWith, List.isPrefixOf, hdot]

theorem startsWith_lowerAfter {word : List Char}
    (hletters : ∀ letter ∈ word, letter ∈ smallLetters)
    (hlast : word.getLast? ≠ some 'i') (before cs : List Char) :
    startsWith word (lowerAfter before cs) = (dropWord? word cs).isSome := by
  induction word generalizing before cs with
  | nil => simp [startsWith, dropWord?]
  | cons letter word ih =>
    obtain ⟨hletter, hword⟩ := List.forall_mem_cons.1 hletters
    rcases cs with _ | ⟨c, cs⟩
    · rfl
    rw [dropWord?]
    rcases lowerAfter_cons before c cs with ⟨x, heq, hx⟩ | ⟨heq, hnot⟩
    · have hrest : word.getLast? ≠ some 'i' := by
        rcases word with _ | ⟨next, word⟩
        · simp
        · rwa [List.getLast?_cons_cons] at hlast
      have hcons : startsWith (letter :: word) (x :: lowerAfter (c :: before) cs) =
          (letter == x && startsWith word (lowerAfter (c :: before) cs)) := rfl
      rw [heq, hcons, ih hword hrest]
      have hx := hx letter hletter
      split_ifs with hc
      · simp [hx.2 hc]
      · simp [mt hx.1 hc]
    · -- After an i the keyword goes on, but not with a dot.
      have hcons (tail : List Char) : startsWith (letter :: word) ('i' :: tail) =
          (letter == 'i' && startsWith word tail) := rfl
      rw [heq, hcons, hnot letter hletter]
      rcases eq_or_ne word [] with rfl | hne
      · have hi : letter ≠ 'i' := mt (congrArg some) hlast
        simp [hi]
      · simp [startsWith_dot hne hword]

theorem contains_lowerAfter {word : List Char} (h : IsKeyword word) (before cs : List Char) :
    contains word (lowerAfter before cs) = (afterWord? word cs).isSome := by
  have hstarts := startsWith_lowerAfter h.letters h.last
  induction cs generalizing before with
  | nil =>
    obtain ⟨letter, word, rfl⟩ := List.exists_cons_of_ne_nil h.ne_nil
    rfl
  | cons c cs ih =>
    rw [afterWord?_cons_isSome, ← hstarts before (c :: cs), ← ih (c :: before)]
    rcases lowerAfter_cons before c cs with ⟨x, heq, -⟩ | ⟨heq, -⟩
    · rw [heq, contains]
    · rw [heq, contains, contains, startsWith_dot h.ne_nil h.letters, Bool.false_or]

end PageScript.Text

namespace PageScript.Script

open Text

/-- A keyword is found in the lower-cased text when it stands in the text in any case. -/
theorem mentions_iff {word : String} (h : IsKeyword word.toList) (text : String) (now : Int64) :
    (ofText text now).mentions word = true ↔ Occurs word.toList text.toList := by
  rw [occurs_iff_isSome, ← contains_lowerAfter h []]
  simp [mentions, ofText, lower]

end PageScript.Script
