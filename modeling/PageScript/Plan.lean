import PageScript.Effect

/-!
# Plans

A plan is what a script comes to: a list of effects, and a sentence on where they come from.
-/

namespace PageScript

open Json

structure Plan where
  success : Bool
  effects : List Effect
  explanation : Option String

namespace Plan

def toValue (p : Plan) : Value :=
  .object ([("success", .bool p.success), ("effects", .array (p.effects.map Effect.toValue))] ++
    optionalMember "explanation" .string p.explanation)

def effects? (v : Value) : Option (List Effect) := do
  (← v.array?).mapM Effect.ofValue?

def read? (room : Nat) (o : Outline) : Option Plan := do
  let [success, effects, explanation] ←
    o.fields? ["success", "effects", "explanation"] room | none
  return {
    success := ← required Value.bool? success
    effects := ← required effects? effects
    explanation := ← optional Value.string? explanation }

def format : Format Plan := ⟨toValue, read?⟩

end Plan

end PageScript
