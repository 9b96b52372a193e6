import PageScript.Proofs.Text.Lowered
import PageScript.Text.Blank

/-!
# Texts that are the same but for case

Two texts are the same but for case when their ASCII letters are (`Text.SameButCase`), so that one
is split where the other is.  What a search finds in one it finds in the other, after as many
characters: a word (`SameButCase.followsFirst`), and the last place on a line where something is
read that case does not matter for (`Blind.lastOnLine`).
-/

namespace PageScript.Text

variable {cs ds es word : List Char} {c d : Char} {p : Char → Bool} {b : Bool}

/-- The texts differ in the case of ASCII letters only. -/
def SameButCase (cs ds : List Char) : Prop :=
  cs.map Char.toLower = ds.map Char.toLower

instance (cs ds : List Char) : Decidable (SameButCase cs ds) :=
  inferInstanceAs (Decidable (_ = _))

namespace SameButCase

theorem refl (cs : List Char) : SameButCase cs cs :=
  rfl

theorem symm (h : SameButCase cs ds) : SameButCase ds cs :=
  Eq.symm h

theorem length_eq (h : SameButCase cs ds) : cs.length = ds.length := by
  simpa using congrArg List.length h

theorem append {cs' ds' : List Char} (h : SameButCase cs ds) (h' : SameButCase cs' ds') :
    SameButCase (cs ++ cs') (ds ++ ds') := by
  rw [SameButCase, List.map_append, List.map_append, h, h']

theorem of_cons (h : SameButCase (c :: cs) ds) :
    ∃ d ds', ds = d :: ds' ∧ c.toLower = d.toLower ∧ SameButCase cs ds' := by
  obtain ⟨d, ds', rfl, hd, hds⟩ := List.map_eq_cons_iff.1 (Eq.symm h)
  exact ⟨d, ds', rfl, hd.symm, Eq.symm hds⟩

theorem of_append (h : SameButCase (cs ++ es) ds) :
    ∃ ds' es', ds = ds' ++ es' ∧ SameButCase cs ds' ∧ SameButCase es es' := by
  rw [SameButCase, List.map_append] at h
  obtain ⟨ds', es', rfl, hds, hes⟩ := List.map_eq_append_iff.1 (Eq.symm h)
  exact ⟨ds', es', rfl, Eq.symm hds, Eq.symm hes⟩

theorem ne_nil (h : SameButCase cs ds) (hne : cs ≠ []) : ds ≠ [] := by
  rwa [← List.length_pos_iff, ← h.length_eq, List.length_pos_iff]

end SameButCase

/-! ### Properties of characters that case does not matter for -/

def capitals : List Char :=
  "ABCDEFGHIJKLMNOPQRSTUVWXYZ".toList

/-- A character has the property in either case. -/
def CaseBlind (p : Char → Bool) : Prop :=
  ∀ c, p c.toLower = p c

/-- Only the capital letters have another lower case. -/
theorem toLower_cases (c : Char) : c.toLower = c ∨ c ∈ capitals := by
  by_cases h : c.val ≥ 'A'.val ∧ c.val ≤ 'Z'.val
  · have hcode : 65 ≤ c.toNat ∧ c.toNat ≤ 90 := by
      simpa [UInt32.le_iff_toNat_le] using h
    have hall : ∀ n < 91, 65 ≤ n → Char.ofNat n ∈ capitals := by decide
    rw [← Char.ofNat_toNat c]
    exact .inr (hall c.toNat (by omega) hcode.1)
  · exact .inl (dif_neg h)

theorem caseBlind_of_capitals (h : ∀ c ∈ capitals, p c.toLower = p c) : CaseBlind p := by
  intro c
  rcases toLower_cases c with hc | hc
  · rw [hc]
  · exact h c hc

theorem caseBlind_isDigit : CaseBlind Char.isDigit :=
  caseBlind_of_capitals (by decide)

theorem caseBlind_isBlank : CaseBlind isBlank :=
  caseBlind_of_capitals (by decide)

theorem caseBlind_inWord : CaseBlind inWord :=
  caseBlind_of_capitals (by decide)

theorem caseBlind_newline : CaseBlind (· == '\n') :=
  caseBlind_of_capitals (by decide)

theorem caseBlind_isLetter {letter : Char} (h : letter ∈ smallLetters) :
    CaseBlind (isLetter letter) := by
  have hall : ∀ letter ∈ smallLetters, ∀ c ∈ capitals,
      isLetter letter c.toLower = isLetter letter c := by decide +kernel
  exact caseBlind_of_capitals (hall letter h)

theorem CaseBlind.eq (hp : CaseBlind p) (h : c.toLower = d.toLower) : p c = p d := by
  rw [← hp c, h, hp d]

theorem toLower_of_isDigit (h : c.isDigit = true) : c.toLower = c := by
  have hnot : ∀ c ∈ capitals, c.isDigit = false := by decide
  refine (toLower_cases c).resolve_right fun hc => ?_
  rw [hnot c hc] at h
  cases h

namespace SameButCase

theorem forall_mem (hp : CaseBlind p) (h : SameButCase cs ds) (hall : ∀ c ∈ cs, p c = b) :
    ∀ d ∈ ds, p d = b := by
  intro d hd
  have hlower : d.toLower ∈ cs.map Char.toLower := h ▸ List.mem_map_of_mem hd
  obtain ⟨c, hc, heq⟩ := List.mem_map.1 hlower
  rw [← hp.eq heq, hall c hc]

theorem forall_head? (hp : CaseBlind p) (h : SameButCase cs ds) (hall : ∀ c ∈ cs.head?, p c = b) :
    ∀ d ∈ ds.head?, p d = b := by
  rcases cs with _ | ⟨c, cs⟩
  · rw [List.map_eq_nil_iff.1 h.symm]
    exact fun d hd => nomatch hd
  · obtain ⟨d, ds, rfl, hd, -⟩ := h.of_cons
    rintro d ⟨⟩
    rw [← hp.eq hd, hall c rfl]

theorem eq_of_digits (h : SameButCase cs ds) (hdigits : ∀ c ∈ cs, c.isDigit = true) : cs = ds := by
  have hself (es : List Char) (hes : ∀ c ∈ es, c.isDigit = true) : es.map Char.toLower = es :=
    (List.map_congr_left fun c hc => toLower_of_isDigit (hes c hc)).trans (List.map_id es)
  have hds := h.forall_mem caseBlind_isDigit hdigits
  rw [← hself cs hdigits, ← hself ds hds, h]

theorem newline_not_mem (h : SameButCase cs ds) (hcs : '\n' ∉ cs) : '\n' ∉ ds := by
  have hall := h.forall_mem caseBlind_newline (b := false)
    fun c hc => beq_eq_false_iff_ne.2 (ne_of_mem_of_not_mem hc hcs)
  exact fun hds => Bool.noConfusion (hall _ hds)

/-! ### Words and lines -/

theorem spells (hword : ∀ letter ∈ word, letter ∈ smallLetters) (h : SameButCase cs ds)
    (hs : Spells word cs) : Spells word ds := by
  induction hs generalizing ds with
  | nil =>
    rw [List.map_eq_nil_iff.1 h.symm]
    exact .nil
  | @cons letter c word cs hc hs ih =>
    obtain ⟨hletter, hword⟩ := List.forall_mem_cons.1 hword
    obtain ⟨d, ds, rfl, hd, h⟩ := h.of_cons
    exact .cons (by rwa [← (caseBlind_isLetter hletter).eq hd]) (ih hword h)

theorem occurs (hword : ∀ letter ∈ word, letter ∈ smallLetters) (h : SameButCase cs ds)
    (ho : Occurs word cs) : Occurs word ds := by
  obtain ⟨before, spelled, after, rfl, hs⟩ := ho
  obtain ⟨front, after', rfl, hfront, -⟩ := h.of_append
  obtain ⟨before', spelled', rfl, -, hspelled⟩ := hfront.of_append
  exact ⟨before', spelled', after', rfl, hspelled.spells hword hs⟩

theorem occurs_iff (hword : ∀ letter ∈ word, letter ∈ smallLetters) (h : SameButCase cs ds) :
    Occurs word cs ↔ Occurs word ds :=
  ⟨h.occurs hword, h.symm.occurs hword⟩

/-- Two texts have their first mention of a word at the same place. -/
theorem followsFirst {rest : List Char} (hword : ∀ letter ∈ word, letter ∈ smallLetters)
    (h : SameButCase cs ds) (hf : FollowsFirst word cs rest) :
    ∃ rest', FollowsFirst word ds rest' ∧ SameButCase rest rest' := by
  obtain ⟨before, spelled, rfl, hs, hfirst⟩ := hf
  obtain ⟨front, rest', rfl, hfront, hrest⟩ := h.of_append
  obtain ⟨before', spelled', rfl, hbefore, hspelled⟩ := hfront.of_append
  refine ⟨rest', ⟨before', spelled', rfl, hspelled.spells hword hs, ?_⟩, hrest⟩
  intro before₁ spelled₁ rest₁ heq hs₁
  obtain ⟨front₂, rest₂, heq₂, hfront₂, -⟩ := (heq ▸ h.symm).of_append
  obtain ⟨before₂, spelled₂, rfl, hbefore₂, hspelled₂⟩ := hfront₂.of_append
  have hle := hfirst before₂ spelled₂ rest₂ heq₂ (hspelled₂.spells hword hs₁)
  rwa [hbefore.length_eq, ← hbefore₂.length_eq] at hle

end SameButCase

/-- What is read in a text is read, but for its own case, in all that are the same but for case. -/
def Blind {α : Type} (same : α → α → Prop) (Reads : List Char → α → Prop) : Prop :=
  ∀ cs ds a, SameButCase cs ds → Reads cs a → ∃ b, Reads ds b ∧ same a b

section Lines

variable {α : Type} {same : α → α → Prop} {Reads : List Char → α → Prop} {gap : List Char} {a : α}

theorem Blind.onLine (hr : Blind same Reads) (h : SameButCase cs ds)
    (ho : OnLine Reads cs gap a) :
    ∃ gap' b, OnLine Reads ds gap' b ∧ gap'.length = gap.length ∧ same a b := by
  obtain ⟨tail, rfl, hgap, ha⟩ := ho
  obtain ⟨gap', tail', rfl, hsame, htail⟩ := h.of_append
  obtain ⟨b, hb, hab⟩ := hr tail tail' a htail ha
  exact ⟨gap', b, ⟨tail', rfl, hsame.newline_not_mem hgap, hb⟩, hsame.length_eq.symm, hab⟩

theorem Blind.lastOnLine (hr : Blind same Reads) : Blind same (LastOnLine Reads) := by
  rintro cs ds a h ⟨gap, ho, hmax⟩
  obtain ⟨gap', b, ho', hlength, hab⟩ := hr.onLine h ho
  refine ⟨b, ⟨gap', ho', fun gap₁ a₁ ho₁ => ?_⟩, hab⟩
  obtain ⟨gap₂, a₂, ho₂, hlength₂, -⟩ := hr.onLine h.symm ho₁
  rw [hlength, ← hlength₂]
  exact hmax gap₂ a₂ ho₂

theorem Blind.not_onLine (hr : Blind same Reads) (h : SameButCase cs ds)
    (hnone : ∀ gap a, ¬ OnLine Reads cs gap a) : ∀ gap a, ¬ OnLine Reads ds gap a := by
  intro gap a ho
  obtain ⟨gap', b, ho', -⟩ := hr.onLine h.symm ho
  exact hnone gap' b ho'

end Lines

theorem wordsFrom_map_toLower (run cs : List Char) :
    wordsFrom (run.map Char.toLower) (cs.map Char.toLower) =
      (wordsFrom run cs).map (·.map Char.toLower) := by
  induction cs generalizing run with
  | nil =>
    rw [List.map_nil, wordsFrom, wordsFrom, List.isEmpty_map]
    split_ifs <;> simp
  | cons c cs ih =>
    rw [List.map_cons, wordsFrom, wordsFrom, caseBlind_inWord, List.isEmpty_map]
    split_ifs
    · exact ih (c :: run)
    · exact ih []
    · rw [List.map_cons, List.map_reverse]
      exact congrArg _ (ih [])

/-- Texts that are the same but for case have the same words but for case. -/
theorem SameButCase.words (h : SameButCase cs ds) :
    List.Forall₂ SameButCase (words cs) (words ds) := by
  have hwords (es : List Char) :
      Text.words (es.map Char.toLower) = (Text.words es).map (·.map Char.toLower) :=
    wordsFrom_map_toLower [] es
  have heq : (Text.words cs).map (·.map Char.toLower) = (Text.words ds).map (·.map Char.toLower) :=
    by rw [← hwords, ← hwords, h]
  rw [← List.forall₂_eq_eq_eq, List.forall₂_map_left_iff, List.forall₂_map_right_iff] at heq
  exact heq

end PageScript.Text
