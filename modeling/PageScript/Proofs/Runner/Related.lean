import PageScript.Proofs.Runner.Observed
import PageScript.Proofs.Store.Related

/-!
# Runs from related desks

A relation between desks that suits both stores, and that is kept when both desks take down the same
hook call or a pause, is respected by all that a runner does (`Runner.respects_execute`,
`Runner.respects_confirmPayment`).
-/

namespace PageScript.Runner

variable {σ α : Type} {R : Desk → Desk → Prop}

/-- That a relation between desks tells nothing that a run sees. -/
structure Suits (R : Desk → Desk → Prop) : Prop where
  slot : ∀ slot : Slot, Desk.Suits R slot.key
  hook : ∀ ⦃d d'⦄, R d d' → ∀ c, R (d.note (.hook c)) (d'.note (.hook c))
  pause : ∀ ⦃d d'⦄, R d d' → R (d.note .pause) (d'.note .pause)

theorem Suits.chain (h : Suits R) : Desk.Suits R Chain.ledger.key :=
  h.slot .chain

theorem Suits.payments (h : Suits R) : Desk.Suits R Payments.ledger.key :=
  h.slot .payments

/-- Stages with related desks and observers in the same state. -/
def OnStage (R : Desk → Desk → Prop) (s s' : Stage σ) : Prop :=
  R s.desk s'.desk ∧ s.observer = s'.observer

theorem respects_atDesk {x : Action α} (hx : Respects R x.run) :
    Respects (OnStage (σ := σ) R) (atDesk x).run :=
  fun _ _ hs => ⟨(hx hs.1).1, (hx hs.1).2, hs.2⟩

theorem respects_call (h : Suits R) (o : Observer σ) (c : HookCall) :
    Respects (OnStage R) (call o c) := by
  rintro ⟨d, t⟩ ⟨d', _⟩ ⟨hd, rfl⟩
  exact ⟨rfl, h.hook hd c, rfl⟩

theorem respects_tell (h : Suits R) (o : Observer σ) (c : HookCall) :
    Respects (OnStage R) (tell o c) := by
  refine (respects_call h o c).bind fun r => ?_
  rcases r with reason | _
  · dsimp only
    split_ifs
    · exact .pure ()
    · intro s s' hs
      exact ⟨rfl, (respects_call h o _ hs).2⟩
  · exact .pure ()

theorem respects_say (h : Suits R) (o : Observer σ) (message : String) :
    Respects (OnStage R) (say o message) :=
  respects_tell h o _

theorem respects_pause (h : Suits R) : Respects (OnStage (σ := σ) R) pause :=
  .modify fun _ _ hs => ⟨h.pause hs.1, hs.2⟩

theorem respects_openSession (h : Suits R) (amountCents : UInt64) (metadata : Json.Members) :
    Respects R (openSession amountCents metadata).run :=
  (Payments.respects_create h.payments _ _ _).bindExcept fun s =>
    (Chain.respects_push h.chain _ s.payload).discard.bindExcept fun _ => .pure _

theorem respects_perform (h : Suits R) (o : Observer σ) (e : Effect) :
    Respects (OnStage R) (perform o e).run := by
  have push (kind : String) (payload : Json.Value) :
      Respects (OnStage (σ := σ) R) (discard (atDesk (Chain.push kind payload))).run :=
    (respects_atDesk (Chain.respects_push h.chain kind payload)).discard
  have opening (amountCents : UInt64) (metadata : Json.Members) :
      Respects (OnStage (σ := σ) R) (atDesk (openSession amountCents metadata)).run :=
    respects_atDesk (respects_openSession h amountCents metadata)
  cases e with
  | log message => exact (respects_say h o _).lift.bindExcept fun _ => push _ _
  | addWatermark page text => exact (respects_tell h o _).lift.bindExcept fun _ => push _ _
  | highlightText text => exact (respects_tell h o _).lift.bindExcept fun _ => push _ _
  | mintNft metadata => exact (respects_tell h o _).lift.bindExcept fun _ => push _ _
  | lockPages pages price =>
    exact (respects_tell h o _).lift.bindExcept fun _ =>
      (opening _ _).bindExcept fun _ => (respects_say h o _).lift
  | runPayment price reason => exact (opening _ _).bindExcept fun _ => (respects_say h o _).lift
  | unknown op => exact (respects_say h o _).lift

theorem respects_step (h : Suits R) (o : Observer σ) (e : Effect) :
    Respects (OnStage R) (step o e) := by
  refine (respects_pause h).bind fun _ => (respects_perform h o e).bind fun r => ?_
  rcases r with failure | _
  · exact respects_say h o _
  · exact .pure ()

theorem respects_steps (h : Suits R) (o : Observer σ) (effects : List Effect) :
    Respects (OnStage R) (steps o effects) := by
  induction effects with
  | nil => exact .pure ()
  | cons e rest ih => exact (respects_step h o e).bind fun _ => ih

theorem respects_execute (h : Suits R) (o : Observer σ) (plan : Plan) :
    Respects (OnStage R) (execute o plan) := by
  have hsteps : Respects (OnStage R) (do steps o plan.effects; return plan) :=
    (respects_steps h o plan.effects).bind fun _ => .pure plan
  rcases plan with ⟨success, effects, _ | explanation⟩
  · exact (Respects.pure ()).bind fun _ => hsteps
  · exact (respects_say h o _).bind fun _ => hsteps

theorem respects_interpret (h : Suits R) (further : List Rule) (script : String) :
    Respects (OnStage (σ := σ) R) (do return Script.interpret further (← get).desk.now script) :=
  .read fun _ _ hs => by rw [h.chain.now hs.1]

theorem respects_run (h : Suits R) (o : Observer σ) (further : List Rule) (script : String) :
    Respects (OnStage R) (run o further script) :=
  (respects_interpret h further script).bind fun plan => respects_execute h o plan

theorem respects_confirmPayment (h : Suits R) (o : Observer σ) (id : String) :
    Respects (OnStage R) (confirmPayment o id).run := by
  refine (respects_say h o _).lift.bindExcept fun _ =>
    (respects_atDesk (Payments.respects_confirm h.payments id)).bindExcept fun confirmed => ?_
  rcases confirmed with _ | session
  · exact (respects_say h o _).lift.bindExcept fun _ => .pure _
  · exact (respects_say h o _).lift.bindExcept fun _ =>
      (respects_atDesk (Chain.respects_push h.chain _ _)).discard.bindExcept fun _ => .pure _

end PageScript.Runner
