import PageScript.Json.Format
import PageScript.Store.Desk

/-!
# Ledgers

A ledger is a list of records in one slot, written as a JSON array.  Every change reads the whole
list and writes the whole list.  Reading makes the best of what is there: a slot that cannot be
decoded counts as an empty list.
-/

namespace PageScript

structure Ledger (α : Type) where
  key : String
  format : Json.Format α

namespace Ledger

variable {α β : Type}

/-- Another handle on the same slot, with no records of its own. -/
def clone (l : Ledger α) : Ledger α where
  key := l.key
  format := l.format

/-- The records a slot holds. -/
def view (l : Ledger α) (slot : Option ByteArray) : List α :=
  match slot with
  | none => []
  | some bytes => (l.format.decode? bytes).getD []

/-- All records, the oldest first. -/
def read (l : Ledger α) : Action (List α) := do
  return l.view (← Desk.load l.key)

def write (l : Ledger α) (records : List α) : Action Unit :=
  Desk.save l.key (l.format.encode records)

def append (l : Ledger α) (a : α) : Action Unit := do
  let records ← l.read
  l.write (records ++ [a])

/-- Lets `change` work on the records.  The slot is written only when it returns something. -/
def update (l : Ledger α) (change : List α → Option β × List α) : Action (Option β) := do
  let records ← l.read
  match change records with
  | (none, _) => return none
  | (some b, changed) =>
    l.write changed
    return some b

/-- Removes all records, without reading them. -/
def clear (l : Ledger α) : Action Unit :=
  l.write []

/-- Records in descending order of time; of those with the same time, the last stored first. -/
def newestFirst (time : α → Int64) (records : List α) : List α :=
  records.reverse.mergeSort fun a b => time b ≤ time a

end Ledger

end PageScript
