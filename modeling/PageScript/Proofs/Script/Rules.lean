import PageScript.Proofs.Text.Lowered
import PageScript.Script.Interpret

/-!
# Rules that apply

A rule applies when one of its keywords stands in the script, in any case.  What it builds then
stands in the plan between what the rules before it and the rules after it build
(`effects_of_applies`).
-/

namespace PageScript.Script

open Text

theorem effects_interpret (further : List Rule) (now : Int64) (text : String) :
    (interpret further now text).effects =
      effects (Rule.builtIn ++ further) (ofText text now) := by
  rw [interpret]

theorem ruleEffects_append (rules rules' : List Rule) (s : Script) :
    ruleEffects (rules ++ rules') s = ruleEffects rules s ++ ruleEffects rules' s := by
  simp [ruleEffects]

theorem ruleEffects_cons_of_applies {rule : Rule} {s : Script} (h : rule.applies s = true)
    (rules : List Rule) : ruleEffects (rule :: rules) s = rule.build s ++ ruleEffects rules s := by
  simp only [ruleEffects, List.filter_cons, h, if_true, List.flatMap_cons]

theorem effects_of_applies (before after : List Rule) {rule : Rule} {s : Script}
    (happlies : rule.applies s = true) (hne : rule.build s ≠ []) :
    effects (before ++ rule :: after) s =
      ruleEffects before s ++ rule.build s ++ ruleEffects after s := by
  have hbuilt : ruleEffects (before ++ rule :: after) s =
      ruleEffects before s ++ rule.build s ++ ruleEffects after s := by
    rw [ruleEffects_append, ruleEffects_cons_of_applies happlies, List.append_assoc]
  rw [effects, hbuilt, if_neg (by simp [hne])]

/-- What is planned for a watermark without a text of its own. -/
theorem watermarkEffects_confidential (page : UInt32) :
    Rule.watermarkEffects page "CONFIDENTIAL" =
      [.addWatermark page "CONFIDENTIAL", .log ("Planned watermark on page " ++
        Numeral.text page.toNat ++ " with text: \"CONFIDENTIAL\"")] := by
  simp [Rule.watermarkEffects, String.append_assoc]

theorem isKeyword_watermark : IsKeyword "watermark".toList where
  ne_nil := by decide
  letters := by decide
  last := by decide

theorem isKeyword_pay : IsKeyword "pay".toList where
  ne_nil := by decide
  letters := by decide
  last := by decide

theorem isKeyword_unlock : IsKeyword "unlock".toList where
  ne_nil := by decide
  letters := by decide
  last := by decide

theorem isKeyword_mint : IsKeyword "mint".toList where
  ne_nil := by decide
  letters := by decide
  last := by decide

theorem applies_watermark_iff (text : String) (now : Int64) :
    Rule.watermark.applies (ofText text now) = true ↔ Occurs "watermark".toList text.toList :=
  mentions_iff isKeyword_watermark text now

theorem applies_lockPages_iff (text : String) (now : Int64) :
    Rule.lockPages.applies (ofText text now) = true ↔
      Occurs "pay".toList text.toList ∨ Occurs "unlock".toList text.toList := by
  rw [← mentions_iff isKeyword_pay text now, ← mentions_iff isKeyword_unlock text now,
    Rule.lockPages, Bool.or_eq_true]

theorem applies_mint_iff (text : String) (now : Int64) :
    Rule.mint.applies (ofText text now) = true ↔ Occurs "mint".toList text.toList :=
  mentions_iff isKeyword_mint text now

end PageScript.Script
