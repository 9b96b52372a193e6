import PageScript.Session
import PageScript.Store.Ledger

/-!
# The payment store

A ledger of payment sessions.  Settling goes to the first session with the id asked for, and does
nothing when there is none or when it is no longer pending.
-/

namespace PageScript.Payments

open Json

def ledger : Ledger Session := ⟨"pdfx_mock_payments", Session.format⟩

def defaultCurrency : String := "usd"

/-- Makes a pending session of the current time. -/
def newSession (amountCents : UInt64) (currency : Option String) (metadata : Option Members) :
    StateM Desk Session := do
  let uuid ← Desk.drawId
  return Session.make amountCents (currency.getD defaultCurrency) metadata (← get).now uuid

def create (amountCents : UInt64) (currency : Option String) (metadata : Option Members) :
    Action Session := do
  let session ← newSession amountCents currency metadata
  ledger.append session
  return session

/-- Settles the first session with this id, if it is pending; returns it as settled. -/
def settleFirst (id : String) (status : Status) : List Session → Option Session × List Session
  | [] => (none, [])
  | s :: rest =>
    if s.id = id then
      match s.settle? status with
      | some settled => (some settled, settled :: rest)
      | none => (none, s :: rest)
    else
      let (settled, rest) := settleFirst id status rest
      (settled, s :: rest)

def confirm (id : String) : Action (Option Session) :=
  ledger.update (settleFirst id .paid)

def fail (id : String) : Action (Option Session) :=
  ledger.update (settleFirst id .failed)

/-- All sessions, the newest first. -/
def list : Action (List Session) := do
  return Ledger.newestFirst (·.createdAt) (← ledger.read)

def clear : Action Unit :=
  ledger.clear

end PageScript.Payments
