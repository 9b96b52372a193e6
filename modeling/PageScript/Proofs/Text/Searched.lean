import Mathlib.Data.List.Forall2
import Mathlib.Data.List.TakeWhile
import PageScript.Text.Search

/-!
# What a search finds

`Text.Spells` says that characters are the letters of a word in any case, and `Text.Occurs` that
these stand somewhere in a text.  `afterWord?` finds the first place where they do
(`afterWord?_eq_some_iff`).

`Text.OnLine` says that something can be read on the line that a text begins with, and where.
`lastOnLine` finds the last such place (`lastOnLine_eq_some_iff`), in the later part of a line if
there is one (`lastOnLine_append_of_some`, `lastOnLine_append_of_none`).
-/

namespace PageScript.Text

variable {word cs rest : List Char}

/-- Whether all characters of a text have a property is decided by going along the text, not through
all of Unicode. -/
instance (priority := 2000) decidableForallMem (p : Char → Prop) [DecidablePred p]
    (cs : List Char) : Decidable (∀ c ∈ cs, p c) :=
  List.decidableBAll p cs

/-- These characters are the letters of a lower-case word, each in either case. -/
def Spells (word cs : List Char) : Prop :=
  List.Forall₂ (fun letter c => isLetter letter c = true) word cs

/-- The word stands in the text, in any case. -/
def Occurs (word cs : List Char) : Prop :=
  ∃ before spelled after, cs = before ++ spelled ++ after ∧ Spells word spelled

/-- What follows the first occurrence of the word in the text, in any case. -/
def FollowsFirst (word cs rest : List Char) : Prop :=
  ∃ before spelled, cs = before ++ spelled ++ rest ∧ Spells word spelled ∧
    ∀ before' spelled' rest', cs = before' ++ spelled' ++ rest' → Spells word spelled' →
      before.length ≤ before'.length

/-- A text begins with a run of characters that goes on as long as it can. -/
theorem takeWhile_dropWhile_iff {p : Char → Bool} {run : List Char} :
    cs.takeWhile p = run ∧ cs.dropWhile p = rest ↔
      cs = run ++ rest ∧ (∀ c ∈ run, p c = true) ∧ ∀ c ∈ rest.head?, p c = false := by
  constructor
  · rintro ⟨rfl, rfl⟩
    refine ⟨List.takeWhile_append_dropWhile.symm, fun c hc => List.mem_takeWhile_imp hc, ?_⟩
    have hhead := List.head?_dropWhile_not p cs
    intro c hc
    rw [Option.mem_def.1 hc] at hhead
    exact hhead
  · rintro ⟨rfl, hrun, hrest⟩
    rw [List.takeWhile_append_of_pos hrun, List.dropWhile_append_of_pos hrun]
    rcases rest with _ | ⟨c, rest⟩
    · simp
    · simp [hrest c rfl]

theorem dropWord?_eq_some_iff :
    dropWord? word cs = some rest ↔ ∃ spelled, cs = spelled ++ rest ∧ Spells word spelled := by
  induction word generalizing cs with
  | nil =>
    rw [dropWord?, Option.some.injEq]
    constructor
    · rintro rfl
      exact ⟨[], rfl, .nil⟩
    · rintro ⟨spelled, rfl, ⟨⟩⟩
      rfl
  | cons letter word ih =>
    rcases cs with _ | ⟨c, cs⟩
    · simp [dropWord?, Spells]
    · constructor
      · intro h
        rw [dropWord?] at h
        split_ifs at h with hc
        obtain ⟨spelled, rfl, hs⟩ := ih.1 h
        exact ⟨c :: spelled, rfl, .cons hc hs⟩
      · rintro ⟨_, h, hs⟩
        cases hs with
        | cons hc hs =>
          obtain ⟨rfl, rfl⟩ := List.cons.inj h
          rw [dropWord?, if_pos hc]
          exact ih.2 ⟨_, rfl, hs⟩

/-- A character that is no letter of the word ends it. -/
theorem dropWord?_append_cons {word : List Char} {c : Char}
    (h : ∀ letter ∈ word, isLetter letter c = false) (part tail : List Char) :
    dropWord? word (part ++ c :: tail) = (dropWord? word part).map (· ++ c :: tail) := by
  induction word generalizing part with
  | nil => rfl
  | cons letter word ih =>
    obtain ⟨hletter, hword⟩ := List.forall_mem_cons.1 h
    rcases part with _ | ⟨d, part⟩
    · simp [dropWord?, hletter]
    · rw [List.cons_append, dropWord?, dropWord?, ih hword]
      split_ifs <;> rfl

theorem takeWhile_append_cons {p : Char → Bool} {c : Char} (h : p c = false)
    (part tail : List Char) :
    (part ++ c :: tail).takeWhile p = part.takeWhile p ∧
      (part ++ c :: tail).dropWhile p = part.dropWhile p ++ c :: tail := by
  induction part with
  | nil => simp [h]
  | cons d part ih => by_cases hd : p d = true <;> simp [hd, ih]

theorem afterWord?_eq_some_iff : afterWord? word cs = some rest ↔ FollowsFirst word cs rest := by
  induction cs with
  | nil =>
    rw [afterWord?, dropWord?_eq_some_iff]
    constructor
    · rintro ⟨spelled, h, hs⟩
      exact ⟨[], spelled, h, hs, fun _ _ _ _ _ => Nat.zero_le _⟩
    · rintro ⟨before, spelled, h, hs, -⟩
      simp only [List.nil_eq, List.append_eq_nil_iff] at h
      exact ⟨spelled, by simp [h], hs⟩
  | cons c cs ih =>
    rw [afterWord?]
    split
    · rename_i after hdrop
      obtain ⟨spelled, heq, hs⟩ := dropWord?_eq_some_iff.1 hdrop
      constructor
      · rintro ⟨⟩
        exact ⟨[], spelled, heq, hs, fun _ _ _ _ _ => Nat.zero_le _⟩
      · rintro ⟨before, spelled', heq', hs', hfirst⟩
        have hbefore : before = [] := by
          simpa using hfirst [] spelled after heq hs
        rw [hbefore, List.nil_append] at heq'
        rw [← hdrop]
        exact dropWord?_eq_some_iff.2 ⟨spelled', heq', hs'⟩
    · rename_i hdrop
      have hnot : ∀ spelled after, c :: cs = spelled ++ after → ¬ Spells word spelled := by
        intro spelled after heq hs
        rw [dropWord?_eq_some_iff.2 ⟨spelled, heq, hs⟩] at hdrop
        cases hdrop
      rw [ih]
      constructor
      · rintro ⟨before, spelled, rfl, hs, hfirst⟩
        refine ⟨c :: before, spelled, rfl, hs, fun before' spelled' rest' heq hs' => ?_⟩
        rcases before' with _ | ⟨_, before'⟩
        · exact absurd hs' (hnot _ _ heq)
        · exact Nat.succ_le_succ (hfirst before' spelled' rest' (List.cons.inj heq).2 hs')
      · rintro ⟨before, spelled, heq, hs, hfirst⟩
        rcases before with _ | ⟨_, before⟩
        · exact absurd hs (hnot _ _ heq)
        · obtain ⟨rfl, rfl⟩ := List.cons.inj heq
          refine ⟨before, spelled, rfl, hs, fun before' spelled' rest' heq hs' => ?_⟩
          exact Nat.succ_le_succ_iff.1
            (hfirst (c :: before') spelled' rest' (congrArg (c :: ·) heq) hs')

theorem afterWord?_cons_isSome (word : List Char) (c : Char) (cs : List Char) :
    (afterWord? word (c :: cs)).isSome =
      ((dropWord? word (c :: cs)).isSome || (afterWord? word cs).isSome) := by
  rw [afterWord?]
  rcases dropWord? word (c :: cs) with _ | _ <;> rfl

theorem afterWord?_append_isSome (before : List Char) {tail : List Char}
    (h : dropWord? word tail = some rest) : (afterWord? word (before ++ tail)).isSome = true := by
  induction before with
  | nil =>
    rcases tail with _ | ⟨c, tail⟩
    · rw [List.append_nil, afterWord?, h]
      rfl
    · rw [List.nil_append, afterWord?_cons_isSome, h]
      rfl
  | cons c before ih => rw [List.cons_append, afterWord?_cons_isSome, ih, Bool.or_true]

theorem occurs_iff_isSome : Occurs word cs ↔ (afterWord? word cs).isSome = true := by
  constructor
  · rintro ⟨before, spelled, after, rfl, hs⟩
    rw [List.append_assoc]
    exact afterWord?_append_isSome before (dropWord?_eq_some_iff.2 ⟨spelled, rfl, hs⟩)
  · intro h
    obtain ⟨rest, hrest⟩ := Option.isSome_iff_exists.1 h
    obtain ⟨before, spelled, heq, hs, -⟩ := afterWord?_eq_some_iff.1 hrest
    exact ⟨before, spelled, rest, heq, hs⟩

section Lines

variable {α : Type} {read? : List Char → Option α} {Reads : List Char → α → Prop} {a : α}

/-- On the line that the text begins with, `a` is read after the characters `gap`. -/
def OnLine (Reads : List Char → α → Prop) (cs gap : List Char) (a : α) : Prop :=
  ∃ tail, cs = gap ++ tail ∧ '\n' ∉ gap ∧ Reads tail a

/-- On the line that the text begins with, `a` is read at the last place where anything is. -/
def LastOnLine (Reads : List Char → α → Prop) (cs : List Char) (a : α) : Prop :=
  ∃ gap, OnLine Reads cs gap a ∧
    ∀ gap' a', OnLine Reads cs gap' a' → gap'.length ≤ gap.length

/-- That `read?` reads what there is to read, and nothing where a line or the text ends. -/
structure ReadsOn (read? : List Char → Option α) (Reads : List Char → α → Prop) : Prop where
  iff : ∀ cs a, read? cs = some a ↔ Reads cs a
  nil : read? [] = none
  newline : ∀ cs, read? ('\n' :: cs) = none

theorem onLine_nil (h : ReadsOn read? Reads) (gap : List Char) (a : α) :
    ¬ OnLine Reads [] gap a := by
  rintro ⟨tail, heq, -, hr⟩
  obtain ⟨-, rfl⟩ := List.append_eq_nil_iff.1 heq.symm
  have hsome := (h.iff [] a).2 hr
  rw [h.nil] at hsome
  cases hsome

theorem onLine_newline (h : ReadsOn read? Reads) (cs gap : List Char) (a : α) :
    ¬ OnLine Reads ('\n' :: cs) gap a := by
  rintro ⟨tail, heq, hgap, hr⟩
  rcases gap with _ | ⟨c, gap⟩
  · have hsome := (h.iff ('\n' :: cs) a).2 (heq ▸ hr)
    rw [h.newline] at hsome
    cases hsome
  · exact hgap ((List.cons.inj heq).1 ▸ List.mem_cons_self)

theorem onLine_cons_iff {c : Char} (hc : c ≠ '\n') (gap : List Char) :
    OnLine Reads (c :: cs) gap a ↔
      gap = [] ∧ Reads (c :: cs) a ∨ ∃ gap', gap = c :: gap' ∧ OnLine Reads cs gap' a := by
  constructor
  · rintro ⟨tail, heq, hgap, hr⟩
    rcases gap with _ | ⟨c', gap⟩
    · exact .inl ⟨rfl, heq ▸ hr⟩
    · obtain ⟨rfl, rfl⟩ := List.cons.inj heq
      exact .inr ⟨gap, rfl, tail, rfl, fun h => hgap (List.mem_cons_of_mem _ h), hr⟩
  · rintro (⟨rfl, hr⟩ | ⟨gap, rfl, tail, rfl, hgap, hr⟩)
    · exact ⟨c :: cs, rfl, List.not_mem_nil, hr⟩
    · exact ⟨tail, rfl, List.not_mem_cons_of_ne_of_not_mem hc.symm hgap, hr⟩

theorem lastOnLine_cons {c : Char} (hc : c ≠ '\n') (cs : List Char) :
    lastOnLine read? (c :: cs) = (lastOnLine read? cs).or (read? (c :: cs)) := by
  rw [lastOnLine, if_neg hc]
  cases lastOnLine read? cs <;> rfl

theorem lastOnLine_cases (h : ReadsOn read? Reads) (cs : List Char) :
    (lastOnLine read? cs = none ∧ ∀ gap a, ¬ OnLine Reads cs gap a) ∨
      ∃ a, lastOnLine read? cs = some a ∧ LastOnLine Reads cs a := by
  induction cs with
  | nil => exact .inl ⟨rfl, onLine_nil h⟩
  | cons c cs ih =>
    rcases eq_or_ne c '\n' with rfl | hc
    · exact .inl ⟨rfl, onLine_newline h cs⟩
    simp only [lastOnLine_cons hc, LastOnLine, onLine_cons_iff hc]
    rcases ih with ⟨hlast, hnone⟩ | ⟨a, hlast, gap, hr, hmax⟩
    · rw [hlast, Option.none_or]
      rcases hread : read? (c :: cs) with _ | a
      · refine .inl ⟨rfl, ?_⟩
        rintro gap a (⟨-, hr⟩ | ⟨gap', -, hr⟩)
        · rw [(h.iff _ a).2 hr] at hread
          cases hread
        · exact hnone gap' a hr
      · refine .inr ⟨a, rfl, [], .inl ⟨rfl, (h.iff _ a).1 hread⟩, ?_⟩
        rintro gap' a' (⟨rfl, -⟩ | ⟨gap', -, hr⟩)
        · exact Nat.le_refl _
        · exact absurd hr (hnone gap' a')
    · rw [hlast, Option.some_or]
      refine .inr ⟨a, rfl, c :: gap, .inr ⟨gap, rfl, hr⟩, ?_⟩
      rintro gap' a' (⟨rfl, -⟩ | ⟨gap', rfl, hr'⟩)
      · exact Nat.zero_le _
      · exact Nat.succ_le_succ (hmax gap' a' hr')

/-- There is one last place, and one thing is read there. -/
theorem LastOnLine.unique {a' : α} (h : ReadsOn read? Reads) (ha : LastOnLine Reads cs a)
    (ha' : LastOnLine Reads cs a') : a = a' := by
  obtain ⟨gap, hr, hmax⟩ := ha
  obtain ⟨gap', hr', hmax'⟩ := ha'
  have hlength := Nat.le_antisymm (hmax' gap a hr) (hmax gap' a' hr')
  obtain ⟨tail, rfl, -, hread⟩ := hr
  obtain ⟨tail', heq, -, hread'⟩ := hr'
  obtain ⟨-, rfl⟩ := List.append_inj heq hlength
  have hsome := (h.iff tail a).2 hread
  rw [(h.iff tail a').2 hread'] at hsome
  exact (Option.some.inj hsome).symm

theorem lastOnLine_eq_some_iff (h : ReadsOn read? Reads) :
    lastOnLine read? cs = some a ↔ LastOnLine Reads cs a := by
  rcases lastOnLine_cases h cs with ⟨hlast, hnone⟩ | ⟨b, hlast, hb⟩
  · rw [hlast]
    constructor
    · rintro ⟨⟩
    · rintro ⟨gap, hr, -⟩
      exact absurd hr (hnone gap a)
  · rw [hlast, Option.some.injEq]
    exact ⟨fun hab => hab ▸ hb, fun ha => hb.unique h ha⟩

theorem lastOnLine_eq_none_iff (h : ReadsOn read? Reads) :
    lastOnLine read? cs = none ↔ ∀ gap a, ¬ OnLine Reads cs gap a := by
  rcases lastOnLine_cases h cs with ⟨hlast, hnone⟩ | ⟨b, hlast, gap, hr, -⟩
  · exact ⟨fun _ => hnone, fun _ => hlast⟩
  · rw [hlast]
    constructor
    · rintro ⟨⟩
    · exact fun hnone => absurd hr (hnone gap b)

theorem lastOnLine_map {β : Type} (f : α → β) (read? : List Char → Option α) (cs : List Char) :
    lastOnLine (fun cs => (read? cs).map f) cs = (lastOnLine read? cs).map f := by
  induction cs with
  | nil => rfl
  | cons c cs ih =>
    rcases eq_or_ne c '\n' with rfl | hc
    · rfl
    · rw [lastOnLine_cons hc, lastOnLine_cons hc, ih, Option.map_or]

/-- What is read later on the line is read last. -/
theorem lastOnLine_append_of_some {before : List Char} (hline : '\n' ∉ before)
    (h : lastOnLine read? cs = some a) : lastOnLine read? (before ++ cs) = some a := by
  induction before with
  | nil => exact h
  | cons c before ih =>
    obtain ⟨hc, hbefore⟩ := List.ne_and_not_mem_of_not_mem_cons hline
    rw [List.cons_append, lastOnLine_cons hc.symm, ih hbefore, Option.some_or]

/-- Nothing is read from where nothing begins. -/
theorem lastOnLine_append_of_not {before : List Char}
    (h : ∀ c ∈ before, c ≠ '\n' ∧ ∀ cs, read? (c :: cs) = none) (cs : List Char) :
    lastOnLine read? (before ++ cs) = lastOnLine read? cs := by
  induction before with
  | nil => rfl
  | cons c before ih =>
    obtain ⟨⟨hc, hread⟩, hbefore⟩ := List.forall_mem_cons.1 h
    rw [List.cons_append, lastOnLine_cons hc, hread, Option.or_none, ih hbefore]

/-- Where what is read before the rest of a line does not depend on it but for `extend`, it is read
last when nothing is read in the rest. -/
theorem lastOnLine_append_of_none {before : List Char} {extend : α → α} (hline : '\n' ∉ before)
    (hread : ∀ part, read? (part ++ cs) = (read? part).map extend)
    (h : lastOnLine read? cs = none) :
    lastOnLine read? (before ++ cs) = (lastOnLine read? before).map extend := by
  induction before with
  | nil => exact h
  | cons c before ih =>
    obtain ⟨hc, hbefore⟩ := List.ne_and_not_mem_of_not_mem_cons hline
    rw [List.cons_append, lastOnLine_cons hc.symm, ih hbefore, ← List.cons_append, hread,
      lastOnLine_cons hc.symm]
    cases lastOnLine read? before <;> rfl

end Lines

end PageScript.Text
