import PageScript.Json.Format

/-!
# Payment sessions

A session is a mock charge.  It starts out pending and may be settled once, as paid or as failed;
there is no way back and none from one to the other.

`Session.toValue` has the members in the order in which a stored session is written,
`Session.payload` is the same session as free-form data.
-/

namespace PageScript

open Json

inductive Status where
  | pending
  | paid
  | failed
deriving DecidableEq

namespace Status

def name : Status → String
  | .pending => "pending"
  | .paid => "paid"
  | .failed => "failed"

def ofName? (s : String) : Option Status :=
  [Status.pending, .paid, .failed].find? (·.name = s)

/-- A status by its name, or as an object with that name as the key of a null. -/
def ofValue? : Value → Option Status
  | .string s => ofName? s
  | .object [(s, .null)] => ofName? s
  | _ => none

end Status

structure Session where
  id : String
  amountCents : UInt64
  currency : String
  status : Status
  createdAt : Int64
  metadata : Option Members

namespace Session

def idOf (createdAt : Int64) (uuid : String) : String :=
  "mockpay_" ++ Numeral.intText createdAt.toInt ++ "_" ++ uuid

def make (amountCents : UInt64) (currency : String) (metadata : Option Members)
    (createdAt : Int64) (uuid : String) : Session where
  id := idOf createdAt uuid
  amountCents := amountCents
  currency := currency
  status := .pending
  createdAt := createdAt
  metadata := metadata

def isPending (s : Session) : Bool :=
  s.status = .pending

/-- Settles a pending session; any other is left alone. -/
def settle? (s : Session) (status : Status) : Option Session :=
  if s.isPending then some { s with status } else none

def confirm? (s : Session) : Option Session := s.settle? .paid

def fail? (s : Session) : Option Session := s.settle? .failed

def toValue (s : Session) : Value :=
  .object ([("id", .string s.id), ("amountCents", .nat s.amountCents.toNat),
    ("currency", .string s.currency), ("status", .string s.status.name),
    ("createdAt", .int s.createdAt.toInt)] ++
    optionalMember "metadata" .object s.metadata)

def payload (s : Session) : Value :=
  s.toValue.sorted

def read? (room : Nat) (o : Outline) : Option Session := do
  let [id, amountCents, currency, status, createdAt, metadata] ←
    o.fields? ["id", "amountCents", "currency", "status", "createdAt", "metadata"] room | none
  return {
    id := ← required Value.string? id
    amountCents := ← required Value.uint64? amountCents
    currency := ← required Value.string? currency
    status := ← required Status.ofValue? status
    createdAt := ← required Value.int64? createdAt
    metadata := ← optional Value.members? metadata }

def format : Format Session := ⟨toValue, read?⟩

end Session

end PageScript
