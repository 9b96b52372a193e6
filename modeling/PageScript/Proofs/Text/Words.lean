import Mathlib.Data.Set.Card
import PageScript.Proofs.Text.Searched

/-!
# Words as maximal runs

A word is a run of word characters that no word character stands right before or after
(`Text.RunAt`).  `words` are all of them, from left to right: there are as many as runs, and each
stands in the list behind as many others as runs begin before it (`length_words`,
`getElem?_words_eq_some_iff`).
-/

namespace PageScript.Text

variable {cs rest run : List Char} {c : Char} {i k : ℕ}

/-- At place `i` of the text a maximal run of word characters begins. -/
def RunAt (cs : List Char) (i : ℕ) (run : List Char) : Prop :=
  ∃ before after, cs = before ++ run ++ after ∧ before.length = i ∧ run ≠ [] ∧
    (∀ c ∈ run, inWord c = true) ∧ (∀ c ∈ before.getLast?, inWord c = false) ∧
    ∀ c ∈ after.head?, inWord c = false

/-- The maximal runs of word characters, with the places at which they begin. -/
def runs (cs : List Char) : Set (ℕ × List Char) :=
  {r | RunAt cs r.1 r.2}

/-- Those that begin before a place. -/
def runsBefore (cs : List Char) (i : ℕ) : Set (ℕ × List Char) :=
  {r ∈ runs cs | r.1 < i}

/-! ### Runs, read from the front -/

/-- A run in a text that more is put before. -/
def shift (d : ℕ) (r : ℕ × List Char) : ℕ × List Char :=
  (d + r.1, r.2)

theorem shift_injective (d : ℕ) : Function.Injective (shift d) := by
  rintro ⟨i, run⟩ ⟨j, run'⟩ h
  simpa [shift] using h

theorem runs_nil : runs [] = ∅ := by
  refine Set.eq_empty_of_forall_notMem ?_
  rintro r ⟨before, after, heq, -, hne, -⟩
  simp only [List.nil_eq, List.append_eq_nil_iff] at heq
  exact hne heq.1.2

/-- Where a run begins, a word character stands. -/
theorem false_of_head? {after : List Char} (hne : run ≠ []) (hrun : ∀ c ∈ run, inWord c = true)
    (hhead : ∀ c ∈ (run ++ after).head?, inWord c = false) : False := by
  obtain ⟨d, run, rfl⟩ := List.exists_cons_of_ne_nil hne
  have hd := hhead d rfl
  rw [hrun d List.mem_cons_self] at hd
  cases hd

theorem runs_cons (hc : inWord c = false) (cs : List Char) :
    runs (c :: cs) = shift 1 '' runs cs := by
  ext ⟨i, run⟩
  constructor
  · rintro ⟨before, after, heq, rfl, hne, hrun, hbefore, hafter⟩
    rcases before with _ | ⟨d, before⟩
    · have heq : c :: cs = run ++ after := heq
      have hhead : ∀ d ∈ (run ++ after).head?, inWord d = false := by
        rw [← heq]
        rintro d ⟨⟩
        exact hc
      exact (false_of_head? hne hrun hhead).elim
    · obtain ⟨rfl, rfl⟩ := List.cons.inj heq
      refine ⟨(before.length, run), ⟨before, after, rfl, rfl, hne, hrun, ?_, hafter⟩, ?_⟩
      · intro d hd
        exact hbefore d (List.mem_getLast?_cons hd)
      · simp [shift, Nat.add_comm]
  · rintro ⟨⟨j, run⟩, ⟨before, after, rfl, rfl, hne, hrun, hbefore, hafter⟩, ⟨⟩⟩
    refine ⟨c :: before, after, rfl, by simp [Nat.add_comm], hne, hrun, ?_, hafter⟩
    rcases before with _ | ⟨d, before⟩
    · rintro d ⟨⟩
      exact hc
    · rwa [List.getLast?_cons_cons]

/-- Every run but the one at the front begins behind it. -/
theorem runs_append (hne : run ≠ []) (hrun : ∀ c ∈ run, inWord c = true)
    (hrest : ∀ c ∈ rest.head?, inWord c = false) :
    runs (run ++ rest) = insert (0, run) (shift run.length '' runs rest) := by
  ext ⟨i, run'⟩
  constructor
  · rintro ⟨before, after, heq, rfl, hne', hrun', hbefore, hafter⟩
    rw [List.append_assoc] at heq
    rcases List.append_eq_append_iff.1 heq with ⟨gap, rfl, hrest'⟩ | ⟨tail, hsplit, -⟩
    · -- The other run begins in the rest, and not where the rest does.
      rcases List.eq_nil_or_concat gap with rfl | ⟨gap, d, rfl⟩
      · exact (false_of_head? hne' hrun' (by rwa [hrest'] at hrest)).elim
      · refine .inr ⟨((gap ++ [d]).length, run'),
          ⟨gap ++ [d], after, by simpa using hrest', rfl, hne', hrun', ?_, hafter⟩, by simp [shift]⟩
        simpa using hbefore
    · -- It begins in the run, and so where the run does.
      rcases List.eq_nil_or_concat before with rfl | ⟨before, d, rfl⟩
      · have heq : run ++ rest = run' ++ after := heq
        have hsame := (takeWhile_dropWhile_iff.2 ⟨heq, hrun', hafter⟩).1
        rw [(takeWhile_dropWhile_iff.2 ⟨rfl, hrun, hrest⟩).1] at hsame
        exact .inl (Prod.ext rfl hsame.symm)
      · have hd := hbefore d (by simp)
        rw [hrun d (by simp [hsplit])] at hd
        cases hd
  · rintro (⟨⟨⟩⟩ | ⟨⟨j, run'⟩, ⟨before, after, rfl, rfl, hne', hrun', hbefore, hafter⟩, ⟨⟩⟩)
    · exact ⟨[], rest, rfl, rfl, hne, hrun, by simp, hrest⟩
    · refine ⟨run ++ before, after, by simp, by simp, hne', hrun', ?_, hafter⟩
      rcases List.eq_nil_or_concat before with rfl | ⟨before, d, rfl⟩
      · exact (false_of_head? hne' hrun' hrest).elim
      · simpa using hbefore

/-! ### Words, read from the front -/

theorem words_cons (hc : inWord c = false) (cs : List Char) : words (c :: cs) = words cs := by
  simp [words, wordsFrom, hc]

theorem wordsFrom_append (hrun : ∀ c ∈ run, inWord c = true) (read rest : List Char) :
    wordsFrom read (run ++ rest) = wordsFrom (run.reverse ++ read) rest := by
  induction run generalizing read with
  | nil => rfl
  | cons c run ih =>
    obtain ⟨hc, hrun⟩ := List.forall_mem_cons.1 hrun
    rw [List.cons_append, wordsFrom, if_pos hc, ih hrun]
    simp

theorem words_append (hne : run ≠ []) (hrun : ∀ c ∈ run, inWord c = true)
    (hrest : ∀ c ∈ rest.head?, inWord c = false) :
    words (run ++ rest) = run :: words rest := by
  rw [words, wordsFrom_append hrun, List.append_nil]
  rcases rest with _ | ⟨c, rest⟩
  · simp [wordsFrom, words, hne]
  · simp [wordsFrom, words, hne, hrest c rfl]

/-- A text is read by leaving out what is in no word and taking whole runs. -/
theorem induction_on_runs {P : List Char → Prop} (cs : List Char) (nil : P [])
    (cons : ∀ c cs, inWord c = false → P cs → P (c :: cs))
    (append : ∀ run rest, run ≠ [] → (∀ c ∈ run, inWord c = true) →
      (∀ c ∈ rest.head?, inWord c = false) → P rest → P (run ++ rest)) : P cs := by
  induction h : cs.length using Nat.strong_induction_on generalizing cs with
  | _ n ih =>
    rcases cs with _ | ⟨c, cs⟩
    · exact nil
    rcases hc : inWord c with _ | _
    · exact cons c cs hc (ih cs.length (by simp [← h]) cs rfl)
    · obtain ⟨heq, hrun, hrest⟩ := takeWhile_dropWhile_iff.1
        ⟨rfl, (rfl : (c :: cs).dropWhile inWord = (c :: cs).dropWhile inWord)⟩
      have hne : (c :: cs).takeWhile inWord ≠ [] := by simp [hc]
      have hshorter : ((c :: cs).dropWhile inWord).length < n := by
        have hlength := congrArg List.length heq
        rw [List.length_append, h] at hlength
        have hpos := List.length_pos_of_ne_nil hne
        omega
      rw [heq]
      exact append _ _ hne hrun hrest (ih _ hshorter _ rfl)

/-! ### As many words as runs -/

theorem runs_finite (cs : List Char) : (runs cs).Finite := by
  induction cs using induction_on_runs with
  | nil => simp [runs_nil]
  | cons c cs hc ih => rw [runs_cons hc]; exact ih.image _
  | append run rest hne hrun hrest ih =>
    rw [runs_append hne hrun hrest]
    exact (ih.image _).insert _

theorem zero_not_mem_shift (hne : run ≠ []) (rs : Set (ℕ × List Char)) :
    (0, run) ∉ shift run.length '' rs := by
  rintro ⟨⟨j, run'⟩, -, h⟩
  have hplace : run.length + j = 0 := congrArg Prod.fst h
  have hpos := List.length_pos_of_ne_nil hne
  omega

theorem length_words (cs : List Char) : (words cs).length = (runs cs).ncard := by
  induction cs using induction_on_runs with
  | nil => simp [runs_nil, words, wordsFrom]
  | cons c cs hc ih =>
    rw [words_cons hc, runs_cons hc, Set.ncard_image_of_injective _ (shift_injective _), ih]
  | append run rest hne hrun hrest ih =>
    rw [words_append hne hrun hrest, runs_append hne hrun hrest,
      Set.ncard_insert_of_notMem (zero_not_mem_shift hne _) ((runs_finite rest).image _),
      Set.ncard_image_of_injective _ (shift_injective _), List.length_cons, ih]

/-! ### Words in the order of runs -/

theorem runsBefore_finite (cs : List Char) (i : ℕ) : (runsBefore cs i).Finite :=
  (runs_finite cs).subset fun _ h => h.1

theorem sep_shift (d i : ℕ) (rs : Set (ℕ × List Char)) :
    {r ∈ shift d '' rs | r.1 < d + i} = shift d '' {r ∈ rs | r.1 < i} := by
  ext r
  constructor
  · rintro ⟨⟨r, hr, rfl⟩, hlt⟩
    exact ⟨r, ⟨hr, Nat.lt_of_add_lt_add_left hlt⟩, rfl⟩
  · rintro ⟨r, ⟨hr, hlt⟩, rfl⟩
    exact ⟨⟨r, hr, rfl⟩, Nat.add_lt_add_left hlt d⟩

theorem ncard_runsBefore_cons (hc : inWord c = false) (cs : List Char) (i : ℕ) :
    (runsBefore (c :: cs) (1 + i)).ncard = (runsBefore cs i).ncard := by
  rw [runsBefore, runs_cons hc, sep_shift, Set.ncard_image_of_injective _ (shift_injective _),
    runsBefore]

theorem ncard_runsBefore_append (hne : run ≠ []) (hrun : ∀ c ∈ run, inWord c = true)
    (hrest : ∀ c ∈ rest.head?, inWord c = false) (i : ℕ) :
    (runsBefore (run ++ rest) (run.length + i)).ncard = (runsBefore rest i).ncard + 1 := by
  have hinsert : runsBefore (run ++ rest) (run.length + i) =
      insert (0, run) (shift run.length '' runsBefore rest i) := by
    rw [runsBefore, runs_append hne hrun hrest, runsBefore, ← sep_shift]
    refine Set.insert_inter_of_mem ?_
    exact Nat.add_pos_left (List.length_pos_of_ne_nil hne) i
  rw [hinsert, Set.ncard_insert_of_notMem (zero_not_mem_shift hne _)
    ((runsBefore_finite rest i).image _), Set.ncard_image_of_injective _ (shift_injective _)]

/-- A word stands behind as many others as runs begin before it. -/
theorem getElem?_words_eq_some_iff :
    (words cs)[k]? = some run ↔ ∃ i, (i, run) ∈ runs cs ∧ (runsBefore cs i).ncard = k := by
  induction cs using induction_on_runs generalizing k with
  | nil => simp [runs_nil, words, wordsFrom]
  | cons c cs hc ih =>
    rw [words_cons hc, ih, runs_cons hc]
    constructor
    · rintro ⟨i, hi, rfl⟩
      exact ⟨1 + i, ⟨_, hi, rfl⟩, ncard_runsBefore_cons hc cs i⟩
    · rintro ⟨_, ⟨⟨i, run⟩, hi, ⟨⟩⟩, rfl⟩
      exact ⟨i, hi, (ncard_runsBefore_cons hc cs i).symm⟩
  | append front rest hne hfront hrest ih =>
    have hnone : (runsBefore (front ++ rest) 0).ncard = 0 := by simp [runsBefore]
    have hlater := ncard_runsBefore_append hne hfront hrest
    rw [words_append hne hfront hrest, runs_append hne hfront hrest]
    rcases k with _ | k
    · rw [List.getElem?_cons_zero, Option.some.injEq]
      constructor
      · rintro rfl
        exact ⟨0, .inl rfl, hnone⟩
      · rintro ⟨_, ⟨⟨⟩⟩ | ⟨⟨i, run⟩, -, ⟨⟩⟩, hk⟩
        · rfl
        · rw [hlater] at hk
          cases hk
    · rw [List.getElem?_cons_succ, ih]
      constructor
      · rintro ⟨i, hi, rfl⟩
        exact ⟨front.length + i, .inr ⟨_, hi, rfl⟩, hlater i⟩
      · rintro ⟨_, ⟨⟨⟩⟩ | ⟨⟨i, run⟩, hi, ⟨⟩⟩, hk⟩
        · rw [hnone] at hk
          cases hk
        · rw [hlater] at hk
          exact ⟨i, hi, Nat.succ.inj hk⟩

end PageScript.Text
