import PageScript.Json.Format

/-!
# Chain events

An event is a record on the mock ledger: what kind of thing happened, its payload, and the time in
milliseconds.  Events are only ever appended, and only ever removed all together.
-/

namespace PageScript

open Json

structure Event where
  id : String
  kind : String
  payload : Value
  timestamp : Int64

namespace Event

def idOf (timestamp : Int64) (uuid : String) : String :=
  "ev_" ++ Numeral.intText timestamp.toInt ++ "_" ++ uuid

def make (kind : String) (payload : Value) (timestamp : Int64) (uuid : String) : Event where
  id := idOf timestamp uuid
  kind := kind
  payload := payload
  timestamp := timestamp

def toValue (e : Event) : Value :=
  .object [("id", .string e.id), ("type", .string e.kind), ("payload", e.payload),
    ("timestamp", .int e.timestamp.toInt)]

def read? (room : Nat) (o : Outline) : Option Event := do
  let [id, kind, payload, timestamp] ← o.fields? ["id", "type", "payload", "timestamp"] room
    | none
  return {
    id := ← required Value.string? id
    kind := ← required Value.string? kind
    payload := ← payload.map Value.sorted
    timestamp := ← required Value.int64? timestamp }

def format : Format Event := ⟨toValue, read?⟩

end Event

end PageScript
