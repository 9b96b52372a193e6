import PageScript.Plan
import PageScript.Script.Rule

/-!
# From script to plan

Every rule that applies contributes its effects, in the order of the rules and wherever its
keywords stand in the script.  A plan is never empty: when the rules build nothing, the fallback
takes their place.
-/

namespace PageScript.Script

def explanation : String := "Interpreted by MockAI heuristics."

/-- What the rules that apply build, in order. -/
def ruleEffects (rules : List Rule) (s : Script) : List Effect :=
  (rules.filter (·.applies s)).flatMap (·.build s)

def effects (rules : List Rule) (s : Script) : List Effect :=
  let built := ruleEffects rules s
  if built.isEmpty then Rule.fallback s else built

/-- Interprets a text by the built-in rules and the further ones after them. -/
def interpret (further : List Rule) (now : Int64) (text : String) : Plan where
  success := true
  effects := effects (Rule.builtIn ++ further) (Script.ofText text now)
  explanation := some explanation

end PageScript.Script
