import PageScript.Event
import PageScript.Store.Ledger

/-!
# The mock chain

A ledger of events, to which events are only ever appended.
-/

namespace PageScript.Chain

open Json

def ledger : Ledger Event := ⟨"pdfx_mock_chain", Event.format⟩

/-- Makes an event of the current time. -/
def newEvent (kind : String) (payload : Value) : StateM Desk Event := do
  let uuid ← Desk.drawId
  return Event.make kind payload (← get).now uuid

def push (kind : String) (payload : Value) : Action Event := do
  let event ← newEvent kind payload
  ledger.append event
  return event

/-- All events, the newest first. -/
def list : Action (List Event) := do
  return Ledger.newestFirst (·.timestamp) (← ledger.read)

def clear : Action Unit :=
  ledger.clear

end PageScript.Chain
