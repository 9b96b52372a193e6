import PageScript.Script.Interpret
import PageScript.Store.Chain
import PageScript.Store.Payments

/-!
# Running plans

Effects are carried out one after another.  For each of them the observer is told and the effect
is recorded in the stores.  Neither an observer that refuses nor a store that fails keeps the rest
of the plan from running: the first is told of its own refusal, unless it was a log line that it
refused, and of the second it is told what could not be recorded.
-/

namespace PageScript

open Json

/-- The desk together with the state of the observer. -/
structure Stage (σ : Type) where
  desk : Desk
  observer : σ

namespace Runner

variable {σ : Type}

def atDesk {α : Type} (action : Action α) : ExceptT Failure (StateM (Stage σ)) α :=
  ExceptT.mk fun s =>
    let (result, desk) := action.run s.desk
    (result, { s with desk })

/-- Calls a hook and takes down the call. -/
def call (o : Observer σ) (c : HookCall) : StateM (Stage σ) (Except String Unit) := fun s =>
  let (response, observer) := o.respond c s.observer
  (response, ⟨s.desk.note (.hook c), observer⟩)

/-- Calls a hook; a refusal is followed by a log line, unless it was itself one that was
refused. -/
def tell (o : Observer σ) (c : HookCall) : StateM (Stage σ) Unit := do
  match ← call o c with
  | .ok () => pure ()
  | .error reason =>
    if c.isLog then pure ()
    else discard <| call o (.log ("Handler for " ++ c.hook ++ " failed: " ++ reason))

def say (o : Observer σ) (message : String) : StateM (Stage σ) Unit :=
  tell o (.log message)

def pause : StateM (Stage σ) Unit :=
  modify fun s => { s with desk := s.desk.note .pause }

/-- Opens a session and puts it on the chain. -/
def openSession (amountCents : UInt64) (metadata : Members) : Action Session := do
  let session ← Payments.create amountCents (some Payments.defaultCurrency) (some metadata)
  discard <| Chain.push "payment_session_created" session.payload
  return session

def lockMetadata (pages : List UInt32) : Members :=
  [("pages", Effect.pagesValue pages), ("reason", .string "lockPages")]

def paymentMetadata (reason : Option String) : Members :=
  [("reason", (reason.map Value.string).getD .null)]

def perform (o : Observer σ) : Effect → ExceptT Failure (StateM (Stage σ)) Unit
  | .log message => do
    say o message
    discard <| atDesk <| Chain.push "log" (.object [("message", .string message)])
  | .addWatermark page text => do
    tell o (.watermark page text)
    discard <| atDesk <| Chain.push "watermark"
      (.object [("page", .nat page.toNat), ("text", .string text)])
  | .highlightText text => do
    tell o (.highlight text)
    discard <| atDesk <| Chain.push "highlight" (.object [("text", .string text)])
  | .lockPages pages price => do
    tell o (.lockPages pages price)
    let session ← atDesk <|
      openSession (price.getD Effect.defaultLockPrice) (lockMetadata pages)
    say o ("Created mock payment session " ++ session.id ++ " for unlocking pages.")
  | .mintNft metadata => do
    tell o (.mintNft metadata)
    discard <| atDesk <| Chain.push "mint" (.object metadata)
  | .runPayment price reason => do
    let session ← atDesk <| openSession price (paymentMetadata reason)
    say o ("Mock payment created " ++ session.id)
  | .unknown op => say o ("Unknown effect: " ++ op)

/-- Carries out one effect after a pause, and reports it when it could not be recorded. -/
def step (o : Observer σ) (e : Effect) : StateM (Stage σ) Unit := do
  pause
  match ← (perform o e).run with
  | .ok () => pure ()
  | .error failure => say o ("Failed to record " ++ e.kind ++ ": " ++ failure.message)

def steps (o : Observer σ) : List Effect → StateM (Stage σ) Unit
  | [] => pure ()
  | e :: rest => do
    step o e
    steps o rest

/-- Carries out a plan and returns it. -/
def execute (o : Observer σ) (plan : Plan) : StateM (Stage σ) Plan := do
  match plan.explanation with
  | some explanation => say o ("[MockAI] " ++ explanation)
  | none => pure ()
  steps o plan.effects
  return plan

/-- Interprets a script at the time of the desk and carries out the plan. -/
def run (o : Observer σ) (further : List Rule) (script : String) : StateM (Stage σ) Plan := do
  execute o (Script.interpret further (← get).desk.now script)

/-- Confirms a pending session and puts the confirmation on the chain.  Nothing comes back when
there is no pending session with this id. -/
def confirmPayment (o : Observer σ) (id : String) :
    ExceptT Failure (StateM (Stage σ)) (Option Session) := do
  say o ("Attempting to confirm mock payment: " ++ id)
  let confirmed ← atDesk <| Payments.confirm id
  match confirmed with
  | some session =>
    say o ("Payment " ++ id ++ " confirmed successfully!")
    discard <| atDesk <|
      Chain.push "payment_confirmed" (.object [("sessionId", .string id)])
    return some session
  | none =>
    say o ("Failed to confirm payment " ++ id ++ ".")
    return none

end Runner

end PageScript
