import PageScript.Proofs.Script.Rules
import PageScript.Proofs.Text.Words

/-!
# Rules that build nothing

A plan is what the rules that apply build, and rules put after them leave that in its place.  Only
when all of them build nothing, be it that none applies, the plan is the fallback, which highlights
the word in the middle of the script (`interpret_or_fallback`).
-/

namespace PageScript.Script

open Text

variable {rules : List Rule} {s : Script}

theorem ruleEffects_eq_nil_iff :
    ruleEffects rules s = [] ↔ ∀ rule ∈ rules, rule.applies s = true → rule.build s = [] := by
  simp [ruleEffects, List.flatMap_eq_nil_iff]

theorem ruleEffects_ne_nil_iff :
    ruleEffects rules s ≠ [] ↔ ∃ rule ∈ rules, rule.applies s = true ∧ rule.build s ≠ [] := by
  rw [Ne, ruleEffects_eq_nil_iff]
  push Not
  rfl

theorem effects_of_built (h : ruleEffects rules s ≠ []) : effects rules s = ruleEffects rules s :=
  if_neg (by simpa using h)

theorem effects_of_not_built (h : ruleEffects rules s = []) : effects rules s = Rule.fallback s :=
  if_pos (by simpa using h)

theorem effects_ne_nil (rules : List Rule) (s : Script) : effects rules s ≠ [] := by
  by_cases h : ruleEffects rules s = []
  · rw [effects_of_not_built h]
    exact List.cons_ne_nil _ _
  · rwa [effects_of_built h]

/-- What rules build stays in front of what rules after them build, and is never the fallback. -/
theorem ruleEffects_prefix_effects (rules more : List Rule) (s : Script) :
    ruleEffects rules s <+: effects (rules ++ more) s := by
  by_cases h : ruleEffects rules s = []
  · rw [h]
    exact List.nil_prefix
  · have happend := ruleEffects_append rules more s
    rw [effects_of_built (by simp [happend, h]), happend]
    exact List.prefix_append _ _

/-- The maximal run that half of all runs, rounded down, begin before. -/
def IsMiddleRun (cs run : List Char) : Prop :=
  ∃ i, (i, run) ∈ runs cs ∧ (runsBefore cs i).ncard = (runs cs).ncard / 2

/-- The word that is highlighted is the run in the middle, or the word "example" if there is
none. -/
structure Highlights (text word : String) : Prop where
  middle : 0 < (runs text.toList).ncard → IsMiddleRun text.toList word.toList
  eq_iff : word = "example" ↔
    (runs text.toList).ncard = 0 ∨ IsMiddleRun text.toList "example".toList
  ne_empty : word ≠ ""
  inWord : ∀ c ∈ word.toList, Text.inWord c = true

theorem isMiddleRun_iff (cs run : List Char) :
    IsMiddleRun cs run ↔ (words cs)[(words cs).length / 2]? = some run := by
  rw [getElem?_words_eq_some_iff, length_words, IsMiddleRun]

theorem highlights_middleWord (text : String) : Highlights text (Rule.middleWord text) := by
  have hmiddle := isMiddleRun_iff text.toList
  have hlength := length_words text.toList
  rcases hword : (words text.toList)[(words text.toList).length / 2]? with _ | run
  · have hnone : (runs text.toList).ncard = 0 := by
      rw [List.getElem?_eq_none_iff] at hword
      omega
    have hexample : Rule.middleWord text = "example" := by
      simp only [Rule.middleWord, hword]
      rfl
    rw [hexample]
    exact ⟨fun h => absurd hnone h.ne', by simp [hnone], by decide, by decide +kernel⟩
  · have hrun := (hmiddle run).2 hword
    have hsome : (runs text.toList).ncard ≠ 0 := by
      have hlt := (List.getElem?_eq_some_iff.1 hword).1
      omega
    have hspelled : Rule.middleWord text = String.ofList run := by
      simp only [Rule.middleWord, hword]
      rfl
    obtain ⟨i, ⟨before, after, -, -, hne, hin, -⟩, -⟩ := id hrun
    rw [hspelled]
    refine ⟨fun _ => by rwa [String.toList_ofList], ?_, ?_, by rwa [String.toList_ofList]⟩
    · rw [hmiddle, hword, Option.some.injEq, ← String.toList_inj, String.toList_ofList]
      simp [hsome]
    · rwa [Ne, ← String.toList_inj, String.toList_ofList]

example : Rule.middleWord "one two, «three» four!" = "three" := by decide +kernel

/-- Rules put after others leave what these build as it is, and the fallback takes the place of
rules that build nothing. -/
theorem interpret_or_fallback (further more : List Rule) (now : Int64) (text : String) :
    let s : Script := ⟨text, lower text, now⟩
    let rules := [Rule.watermark, Rule.lockPages, Rule.mint] ++ further
    let built := (rules.filter (·.applies s)).flatMap (·.build s)
    (interpret further now text).effects ≠ [] ∧
      built <+: (interpret (further ++ more) now text).effects ∧
      ((∃ rule ∈ rules, rule.applies s = true ∧ rule.build s ≠ []) ∧
          (interpret further now text).effects = built ∨
        (∀ rule ∈ rules, rule.applies s = true → rule.build s = []) ∧
          ∃ word, (interpret further now text).effects =
              [.log "No direct heuristic match — defaulting to highlight.",
                .highlightText word] ∧
            Highlights text word) := by
  intro s rules built
  have hs : s = ofText text now := rfl
  have hbuilt : built = ruleEffects rules s := rfl
  have hrules : rules = Rule.builtIn ++ further := rfl
  rw [effects_interpret, effects_interpret, ← List.append_assoc, ← hrules, ← hs, hbuilt]
  refine ⟨effects_ne_nil _ _, ruleEffects_prefix_effects _ more _, ?_⟩
  by_cases h : ruleEffects rules s = []
  · rw [effects_of_not_built h]
    exact .inr ⟨ruleEffects_eq_nil_iff.1 h, Rule.middleWord text, rfl, highlights_middleWord text⟩
  · exact .inl ⟨ruleEffects_ne_nil_iff.1 h, effects_of_built h⟩

/-- A rule that applies and builds nothing leaves the plan to the fallback, and a rule after it puts
what it builds in the place of the fallback. -/
theorem interpret_or_fallback_idle_rule :
    let idle : Rule := ⟨"idle", fun _ => true, fun _ => []⟩
    let echo : Rule := ⟨"echo", fun s => s.mentions "brave", fun s => [.log s.text]⟩
    (interpret [idle] 0 "a Brave new world!").effects =
        [.log "No direct heuristic match — defaulting to highlight.", .highlightText "new"] ∧
      (interpret [idle, echo] 0 "a Brave new world!").effects = [.log "a Brave new world!"] := by
  intro idle echo
  let text := "a Brave new world!"
  let s : Script := ⟨text, lower text, 0⟩
  have hsilent : ∀ rule ∈ [Rule.watermark, Rule.lockPages, Rule.mint],
      rule.applies s = false := by decide +kernel
  have hecho : echo.applies s = true := by decide +kernel
  constructor
  · obtain ⟨-, -, ⟨⟨rule, hrule, happlies, hne⟩, -⟩ | ⟨-, word, heffects, hword⟩⟩ :=
      interpret_or_fallback [idle] [] 0 text
    · rcases List.mem_append.1 hrule with hrule | hrule
      · rw [hsilent rule hrule] at happlies
        cases happlies
      · rw [List.mem_singleton.1 hrule] at hne
        exact absurd rfl hne
    · have hmiddle : (words text.toList)[(words text.toList).length / 2]? =
          some "new".toList := by decide +kernel
      have hpos : 0 < (runs text.toList).ncard := by
        rw [← length_words]
        decide +kernel
      have hspelled := (isMiddleRun_iff _ _).1 (hword.middle hpos)
      rw [hmiddle, Option.some.injEq, String.toList_inj] at hspelled
      rw [heffects, ← hspelled]
  · obtain ⟨-, -, ⟨-, heffects⟩ | ⟨hnothing, -⟩⟩ := interpret_or_fallback [idle, echo] [] 0 text
    · have hbuilt : ([Rule.watermark, Rule.lockPages, Rule.mint] ++ [idle, echo]).filter
          (·.applies s) = [idle, echo] := by
        rw [List.filter_append, List.filter_eq_nil_iff.2 (by simpa using hsilent)]
        simp [idle, hecho]
      rw [heffects, hbuilt]
      rfl
    · exact absurd (hnothing echo (by simp) hecho) (List.cons_ne_nil _ _)

end PageScript.Script
