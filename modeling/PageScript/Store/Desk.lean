import PageScript.Hook
import PageScript.Store.Backing
import PageScript.Store.Fault
import PageScript.Text.Uuid

/-!
# The desk

A desk is all that the operations of a run read and change: the backing and its faults, the clock,
the source of ids, and a record of what happened.  An `Action` works at a desk and may fail; what
it changed before it failed stays changed.
-/

namespace PageScript

/-- Something that happened during a run, as the record keeps it. -/
inductive Occurrence where
  | loaded (key : String)
  | loadFailed (key : String) (failure : Failure)
  | saved (key : String)
  | saveFailed (key : String) (failure : Failure)
  | hook (call : HookCall)
  | pause

/-- Numbered unique texts, and how many of them have been drawn. -/
structure IdSource where
  uuid : Nat → String
  drawn : Nat

/-- Ids of consecutive numbers. -/
def IdSource.countingFrom (start : Nat) : IdSource where
  uuid n := Uuid.ofNat ((start + n) % Uuid.count)
  drawn := 0

structure Desk where
  backing : Backing
  faults : List Fault
  now : Int64
  ids : IdSource
  record : List Occurrence

abbrev Action (α : Type) := ExceptT Failure (StateM Desk) α

namespace Desk

def note (d : Desk) (o : Occurrence) : Desk :=
  { d with record := d.record ++ [o] }

/-- Moves the clock by an amount of milliseconds; the time wraps around at 64 bits. -/
def advance (d : Desk) (by_ : Int64) : Desk :=
  { d with now := d.now + by_ }

/-- Draws the next id. -/
def drawId : StateM Desk String := fun d =>
  (d.ids.uuid d.ids.drawn, { d with ids := { d.ids with drawn := d.ids.drawn + 1 } })

/-- The content of a slot, none if it was never written. -/
def load (key : String) : Action (Option ByteArray) := ExceptT.mk fun d =>
  let (failure, faults) := Fault.ask .load key d.faults
  let d := { d with faults }
  match failure with
  | some f => (.error f, d.note (.loadFailed key f))
  | none =>
    match d.backing.load key with
    | .ok slot => (.ok slot, d.note (.loaded key))
    | .error e => (.error (.inOut (.file e)), d.note (.loadFailed key (.inOut (.file e))))

def save (key : String) (content : ByteArray) : Action Unit := ExceptT.mk fun d =>
  let (failure, faults) := Fault.ask .save key d.faults
  let d := { d with faults }
  match failure with
  | some f => (.error f, d.note (.saveFailed key f))
  | none =>
    match d.backing.save key content with
    | .ok backing => (.ok (), { d with backing }.note (.saved key))
    | .error e => (.error (.inOut (.file e)), d.note (.saveFailed key (.inOut (.file e))))

end Desk

end PageScript
