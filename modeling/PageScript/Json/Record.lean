import PageScript.Json.Outline

/-!
# Records in JSON

A record with named fields is read from an object, whose unknown members are passed over and
whose known ones may each occur once, or from an array of its fields in order, which may end
early.  What comes back is one entry a field, `none` for a field that is absent; whether the
record can do without it is the record's own decision.

`Value.fields?` reads from a value; `Outline.fields?` reads from an outline, where the members
passed over need not even denote a value.
-/

namespace PageScript.Json

/-- The member of a name, if there is one; nothing when it occurs twice. -/
def pickOne {α : Type} (members : List (String × α)) (name : String) : Option (Option α) :=
  match members.filter (·.1 = name) with
  | [] => some none
  | [(_, v)] => some (some v)
  | _ => none

/-- The member of each name. -/
def pick {α : Type} (names : List String) (members : List (String × α)) :
    Option (List (Option α)) :=
  names.mapM (pickOne members)

/-- The items in the places of the names; nothing when there are more items than names. -/
def place {α : Type} (names : List String) (items : List α) : Option (List (Option α)) :=
  if items.length ≤ names.length then
    some (items.map some ++ List.replicate (names.length - items.length) none)
  else none

namespace Value

def fields? (names : List String) : Value → Option (List (Option Value))
  | .object members => pick names members
  | .array items => place names items
  | _ => none

end Value

namespace Outline

def keys? : List (List Text.Piece × Outline) → Option (List (String × Outline))
  | [] => some []
  | (key, o) :: rest => do
    let k ← Text.decode? key
    return (k, o) :: (← keys? rest)

def fieldValues? (room : Nat) : List (Option Outline) → Option (List (Option Value))
  | [] => some []
  | none :: rest => do return none :: (← fieldValues? room rest)
  | some o :: rest => do
    let v ← o.value? room
    return some v :: (← fieldValues? room rest)

def fields? (names : List String) : Nat → Outline → Option (List (Option Value))
  | room + 1, .object members => do fieldValues? room (← pick names (← keys? members))
  | room + 1, .array items => do fieldValues? room (← place names items)
  | _, _ => none

/-- The items of an array that need not denote values, and the room inside it. -/
def items? : Nat → Outline → Option (Nat × List Outline)
  | room + 1, .array items => some (room, items)
  | _, _ => none

end Outline

/-- A member that is left out when there is no value for it. -/
def optionalMember {α : Type} (key : String) (write : α → Value) :
    Option α → List (String × Value)
  | none => []
  | some a => [(key, write a)]

/-- A field that may be absent or null. -/
def optional {α : Type} (read : Value → Option α) : Option Value → Option (Option α)
  | none | some .null => some none
  | some v => (read v).map some

/-- A field that has to be there. -/
def required {α : Type} (read : Value → Option α) (field : Option Value) : Option α :=
  field.bind read

end PageScript.Json
