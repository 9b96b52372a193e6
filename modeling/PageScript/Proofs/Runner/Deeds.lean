import PageScript.Proofs.Runner.Operations
import PageScript.Proofs.Store.Aged

/-!
# What a deed does to the sessions

A `Deed` is an operation on the payments or one of the runner, with what it answered, a move of the
clock, or a change of the faults.  Carrying out a plan only adds pending sessions, whatever its
effects are (`Runner.execute_adds`).  Every deed but a successful clearing lets the sessions age and
adds others after them, and a session it returns as settled was pending before (`Deed.Does.cases`).
-/

namespace PageScript

open Json

namespace Payments

variable {b b' : Backing}

/-- What is appended to the chain leaves the sessions alone. -/
theorem records_of_extends_chain {new : List Event} (h : Chain.ledger.Extends b new b') :
    ledger.records b' = ledger.records b := by
  cases h with
  | none => rfl
  | one hs =>
    exact Ledger.records_save_of_ne isSlotName_payments isSlotName_chain
      chain_key_ne_payments_key.symm hs

theorem records_of_saves {changed : List Session} (hp : ∀ s ∈ changed, s.Plain 125)
    (h : ledger.Saves changed b b') : ledger.records b' = changed :=
  Ledger.records_save_self (fun s hs => Session.restores (hp s hs)) h

theorem records_of_extends {new : List Session} (hold : ∀ s ∈ ledger.records b, s.Plain 125)
    (hnew : ∀ s ∈ new, s.Plain 125) (h : ledger.Extends b new b') :
    ledger.records b' = ledger.records b ++ new := by
  cases h with
  | none => rw [List.append_nil]
  | one hs => exact records_of_saves (List.forall_mem_append.2 ⟨hold, hnew⟩) hs

end Payments

/-- The sessions that come of an effect are pending and bear its first id. -/
theorem Upshot.Of.made {now : Int64} {uuid : ℕ → String} {n : ℕ} {e : Effect} {out : Upshot}
    (h : Upshot.Of now uuid n e out) :
    Session.Made uuid n (n + out.drawn) out.sessions ∧
      ∀ s ∈ out.sessions, s.status = .pending ∧ s.Plain 125 := by
  have hplain {amountCents : UInt64} {metadata : Members}
      (h : e.entry? = some (.session amountCents metadata)) :
      (Upshot.opened amountCents metadata now (uuid n)).Plain 125 := by
    intro m hm
    cases hm
    exact (Effect.plain_metadata h).mono (by omega)
  cases h with
  | nothing | recorded | lost | unopened =>
    exact ⟨.nil (Nat.le_add_right n _), List.forall_mem_nil _⟩
  | opened h hs | orphaned h hs =>
    subst hs
    exact ⟨.one _ rfl (Nat.lt_add_of_pos_right Nat.two_pos),
      List.forall_mem_singleton.2 ⟨rfl, hplain h⟩⟩

namespace Runner

variable {σ : Type}

/-- From the desk `d` on, pending sessions were added until the desk `d'`. -/
structure Adds (d d' : Desk) : Prop where
  uuid : d'.ids.uuid = d.ids.uuid
  drawn : d.ids.drawn ≤ d'.ids.drawn
  sessions : ∃ new, Payments.sessions d' = Payments.sessions d ++ new ∧
    Session.Made d.ids.uuid d.ids.drawn d'.ids.drawn new ∧
    ∀ s ∈ new, s.status = .pending ∧ s.Plain 125

theorem Adds.trans {d d' d'' : Desk} (h : Adds d d') (h' : Adds d' d'') : Adds d d'' where
  uuid := h'.uuid.trans h.uuid
  drawn := h.drawn.trans h'.drawn
  sessions := by
    obtain ⟨new, heq, hmade, hnew⟩ := h.sessions
    obtain ⟨more, heq', hmade', hmore⟩ := h'.sessions
    rw [h.uuid] at hmade'
    exact ⟨new ++ more, by rw [heq', heq, List.append_assoc], hmade.append hmade',
      List.forall_mem_append.2 ⟨hnew, hmore⟩⟩

theorem Adds.advances {d d' : Desk} (h : Adds d d') : Payments.Advances d d' where
  uuid := h.uuid
  drawn := h.drawn
  sessions := by
    obtain ⟨new, heq, hmade, hnew⟩ := h.sessions
    exact ⟨_, new, heq, List.forall₂_same.2 fun s _ => .refl s, hmade, fun s hs => (hnew s hs).2⟩

theorem Adds.of_backing_eq {d d' : Desk} (huuid : d'.ids.uuid = d.ids.uuid)
    (hdrawn : d.ids.drawn ≤ d'.ids.drawn) (hb : d'.backing = d.backing) : Adds d d' where
  uuid := huuid
  drawn := hdrawn
  sessions := ⟨[], by rw [Payments.sessions, hb, List.append_nil, Payments.sessions],
    .nil hdrawn, List.forall_mem_nil _⟩

theorem step_adds (o : Observer σ) (e : Effect) (s : Stage σ)
    (hb : ∀ p ∈ Payments.sessions s.desk, p.Plain 125) : Adds s.desk (step o e s).2.desk := by
  obtain ⟨out, s', hstep, hof, hcomes⟩ := step_cases o e s
  obtain ⟨hmade, hnew⟩ := hof.made
  obtain ⟨b, hp, hc⟩ := hcomes.saved
  have hr := hcomes.reaches
  have hsessions : Payments.sessions s'.desk = Payments.sessions s.desk ++ out.sessions :=
    (Payments.records_of_extends_chain hc).trans
      (Payments.records_of_extends hb (fun p hp => (hnew p hp).2) hp)
  rw [hstep]
  refine ⟨hr.uuid, by rw [hr.drawn]; omega, out.sessions, hsessions, ?_, hnew⟩
  rw [hr.drawn]
  exact hmade

theorem Adds.plain {d d' : Desk} (h : Adds d d')
    (hp : ∀ s ∈ Payments.sessions d, s.Plain 125) : ∀ s ∈ Payments.sessions d', s.Plain 125 := by
  obtain ⟨new, heq, -, hnew⟩ := h.sessions
  rw [heq]
  exact List.forall_mem_append.2 ⟨hp, fun s hs => (hnew s hs).2⟩

theorem steps_adds (o : Observer σ) (es : List Effect) (s : Stage σ)
    (hb : ∀ p ∈ Payments.sessions s.desk, p.Plain 125) : Adds s.desk (steps o es s).2.desk := by
  induction es generalizing s with
  | nil => exact .of_backing_eq rfl le_rfl rfl
  | cons e rest ih =>
    have hstep := step_adds o e s hb
    exact hstep.trans (ih _ (hstep.plain hb))

/-- Carrying out a plan adds pending sessions, whatever effects it has. -/
theorem execute_adds (o : Observer σ) (plan : Plan) (s : Stage σ)
    (hb : ∀ p ∈ Payments.sessions s.desk, p.Plain 125) :
    Adds s.desk (execute o plan s).2.desk := by
  obtain ⟨s₁, hexecute, hr, hb₁⟩ := explain_reaches o plan s
  have hfirst : Adds s.desk s₁.desk := .of_backing_eq hr.uuid hr.drawn.ge hb₁
  rw [hexecute, bind_apply]
  exact hfirst.trans (steps_adds o plan.effects s₁ (hfirst.plain hb))

end Runner

/-- An operation on the payments or of the runner, with its arguments and what it answered. -/
inductive Deed where
  | create (amountCents : UInt64) (currency : Option String) (metadata : Option Members)
    (r : Except Failure Session)
  | settle (id : String) (status : Status) (r : Except Failure (Option Session))
  | confirmPayment (id : String) (r : Except Failure (Option Session))
  | work
  | list (r : Except Failure (List Session))
  | clear (r : Except Failure Unit)
  | wait

namespace Deed

/-- Whether all sessions were removed. -/
def Clears (c : Deed) : Prop := c = .clear (.ok ())

/-- The id of the session that was returned as settled. -/
def settled? : Deed → Option String
  | .settle id _ (.ok (some _)) | .confirmPayment id (.ok (some _)) => some id
  | _ => none

/-- The deed leads from the desk `d` to the desk `d'`. -/
inductive Does (d : Desk) : Deed → Desk → Prop
  | create {amountCents : UInt64} {currency : Option String} {metadata : Option Members}
    {r : Except Failure Session} {d' : Desk} (hm : ∀ m ∈ metadata, (Value.object m).Plain 120)
    (h : (Payments.create amountCents currency metadata).run d = (r, d')) :
    Does d (.create amountCents currency metadata r) d'
  | confirm {id : String} {r : Except Failure (Option Session)} {d' : Desk}
    (h : (Payments.confirm id).run d = (r, d')) : Does d (.settle id .paid r) d'
  | fail {id : String} {r : Except Failure (Option Session)} {d' : Desk}
    (h : (Payments.fail id).run d = (r, d')) : Does d (.settle id .failed r) d'
  | confirmPayment {σ : Type} {o : Observer σ} {t : σ} {id : String}
    {r : Except Failure (Option Session)} {s' : Stage σ}
    (h : (Runner.confirmPayment o id).run ⟨d, t⟩ = (r, s')) :
    Does d (.confirmPayment id r) s'.desk
  | run {σ : Type} {o : Observer σ} {t : σ} {script : String} {further : List Rule}
    {plan : Plan} {s' : Stage σ} (h : Runner.run o further script ⟨d, t⟩ = (plan, s')) :
    Does d .work s'.desk
  | execute {σ : Type} {o : Observer σ} {t : σ} {plan plan' : Plan} {s' : Stage σ}
    (h : Runner.execute o plan ⟨d, t⟩ = (plan', s')) : Does d .work s'.desk
  | list {r : Except Failure (List Session)} {d' : Desk} (h : Payments.list.run d = (r, d')) :
    Does d (.list r) d'
  | clear {r : Except Failure Unit} {d' : Desk} (h : Payments.clear.run d = (r, d')) :
    Does d (.clear r) d'
  | clock (now : Int64) : Does d .wait { d with now }
  | faults (faults : List Fault) : Does d .wait { d with faults }

variable {d d' : Desk} {c : Deed}

/-- How creating, by the books, leads on. -/
theorem adds_of_create (hb : Payments.Books d) {amountCents : UInt64} {currency : Option String}
    {metadata : Option Members} {r : Except Failure Session}
    (hm : ∀ m ∈ metadata, (Value.object m).Plain 120)
    (h : (Payments.create amountCents currency metadata).run d = (r, d')) :
    Runner.Adds d d' ∧ ∀ s, r = .ok s →
      s = Payments.nextSession amountCents currency metadata d ∧
        Payments.sessions d' = Payments.sessions d ++ [s] := by
  have hc := Payments.adds_create amountCents currency metadata d
  rw [h] at hc
  cases hc with
  | failed hw hq hbacking =>
    exact ⟨.of_backing_eq hq.uuid (by rw [hq.drawn]; omega) hbacking, nofun⟩
  | added hq hs =>
    have hplain : (Payments.nextSession amountCents currency metadata d).Plain 125 :=
      fun m hmem => (hm m hmem).mono (by omega)
    have hsessions : Payments.sessions d' = Payments.sessions d ++ [_] :=
      Payments.records_of_saves
        (List.forall_mem_append.2 ⟨hb.plain, List.forall_mem_singleton.2 hplain⟩) hs
    refine ⟨⟨hq.uuid, by rw [hq.drawn]; omega, _, hsessions, ?_, ?_⟩, ?_⟩
    · exact .one _ rfl (by rw [hq.drawn]; omega)
    · exact List.forall_mem_singleton.2 ⟨rfl, hplain⟩
    · rintro s ⟨⟩
      exact ⟨rfl, hsessions⟩

/-- What a deed does to the sessions, and which of them it returned as settled. -/
structure Turn (d : Desk) (c : Deed) (d' : Desk) : Prop where
  advances : Payments.Advances d d'
  pending : ∀ s ∈ Payments.sessions d', (∀ p ∈ Payments.sessions d, p.id ≠ s.id) →
    s.status = .pending
  settled : ∀ id, c.settled? = some id →
    (∃ s ∈ Payments.sessions d, s.id = id ∧ s.status = .pending) ∧
      ∃ s ∈ Payments.sessions d', s.id = id ∧ s.status ≠ .pending

theorem Turn.of_adds (h : Runner.Adds d d') (hc : c.settled? = none) : Turn d c d' where
  advances := h.advances
  pending s hs hother := by
    obtain ⟨new, heq, -, hnew⟩ := h.sessions
    rw [heq] at hs
    rcases List.mem_append.1 hs with hs | hs
    · exact absurd rfl (hother s hs)
    · exact (hnew s hs).1
  settled _ hid := by
    rw [hc] at hid
    cases hid

theorem Turn.of_backing_eq (huuid : d'.ids.uuid = d.ids.uuid)
    (hdrawn : d.ids.drawn ≤ d'.ids.drawn) (hb : d'.backing = d.backing)
    (hc : c.settled? = none) : Turn d c d' :=
  .of_adds (.of_backing_eq huuid hdrawn hb) hc

/-- When the sessions were saved with one of them settled, be it returned or not. -/
theorem Turn.of_saves (hb : Payments.Books d) {id : String} {status : Status} {p : Session}
    {changed : List Session}
    (hc : Payments.settleFirst id status (Payments.sessions d) = (some p, changed))
    (hstatus : status ≠ .pending) (huuid : d'.ids.uuid = d.ids.uuid)
    (hdrawn : d.ids.drawn ≤ d'.ids.drawn) {b : Backing}
    (hs : Payments.ledger.Saves changed d.backing b)
    (hrecords : Payments.sessions d' = Payments.ledger.records b)
    (hid : ∀ i, c.settled? = some i → i = id) : Turn d c d' := by
  have hsessions : Payments.sessions d' = changed :=
    hrecords.trans (Payments.records_of_saves (Payments.plain_settleFirst hc hb.plain) hs)
  have hadvances := Payments.Advances.settle hc hstatus huuid hdrawn hsessions
  obtain ⟨before, s, after, heq, -, hsid, hpending, rfl, rfl⟩ := Payments.settleFirst_cases hc
  refine ⟨hadvances, ?_, ?_⟩
  · rw [heq, hsessions]
    intro r hr hother
    rcases List.mem_append.1 hr with hr | hr
    · exact absurd rfl (hother r (List.mem_append_left _ hr))
    rcases List.mem_cons.1 hr with rfl | hr
    · exact absurd rfl (hother s (by simp))
    · exact absurd rfl (hother r (by simp [hr]))
  · intro i hi
    obtain rfl := hid i hi
    rw [heq, hsessions]
    exact ⟨⟨s, by simp, hsid, hpending⟩, { s with status }, by simp, hsid, hstatus⟩

theorem Turn.of_update (hb : Payments.Books d) {id : String} {status : Status}
    {r : Except Failure (Option Session)} (hstatus : status ≠ .pending)
    (h : (Payments.ledger.update (Payments.settleFirst id status)).run d = (r, d')) :
    Turn d (.settle id status r) d' := by
  have hu := Payments.ledger.updates_update (Payments.settleFirst id status) d
  rw [h] at hu
  cases hu with
  | failed hw hq hbacking => exact .of_backing_eq hq.uuid hq.drawn.ge hbacking rfl
  | unchanged hc hq hbacking => exact .of_backing_eq hq.uuid hq.drawn.ge hbacking rfl
  | saved hc hq hs =>
    refine .of_saves hb hc hstatus hq.uuid hq.drawn.ge hs rfl ?_
    rintro _ ⟨⟩
    rfl

theorem Turn.of_confirmPayment (hb : Payments.Books d) {σ : Type} {o : Observer σ} {t : σ}
    {id : String} {r : Except Failure (Option Session)} {s' : Stage σ}
    (h : (Runner.confirmPayment o id).run ⟨d, t⟩ = (r, s')) :
    Turn d (.confirmPayment id r) s'.desk := by
  have hc := Runner.confirms_confirmPayment o id ⟨d, t⟩
  rw [h] at hc
  cases hc with
  | failed hw hr hbacking => exact .of_backing_eq hr.uuid hr.drawn.ge hbacking rfl
  | refused hc hr hbacking => exact .of_backing_eq hr.uuid hr.drawn.ge hbacking rfl
  | half hc hw hr hs =>
    have hdrawn : d.ids.drawn ≤ s'.desk.ids.drawn := hr.drawn ▸ Nat.le_succ d.ids.drawn
    exact .of_saves hb hc nofun hr.uuid hdrawn hs rfl nofun
  | confirmed hc hr hs he =>
    have hdrawn : d.ids.drawn ≤ s'.desk.ids.drawn := hr.drawn ▸ Nat.le_succ d.ids.drawn
    refine .of_saves hb hc nofun hr.uuid hdrawn hs (Payments.records_of_extends_chain he) ?_
    rintro _ ⟨⟩
    rfl

theorem Turn.of_list {r : Except Failure (List Session)} (h : Payments.list.run d = (r, d')) :
    Turn d (.list r) d' := by
  rcases Payments.ledger.read_cases d with ⟨f, q, hread, hq, hb⟩ | ⟨q, hread, hq, hb⟩
  · rw [Payments.list, run_bind_of_error hread] at h
    cases h
    exact .of_backing_eq hq.uuid hq.drawn.ge hb rfl
  · rw [Payments.list, run_bind_of_ok hread] at h
    cases h
    exact .of_backing_eq hq.uuid hq.drawn.ge hb rfl

/-- All sessions were removed. -/
structure Cleared (d : Desk) (c : Deed) (d' : Desk) : Prop where
  clears : c.Clears
  uuid : d'.ids.uuid = d.ids.uuid
  drawn : d'.ids.drawn = d.ids.drawn
  sessions : Payments.sessions d' = []

theorem clear_cases {r : Except Failure Unit} (h : Payments.clear.run d = (r, d')) :
    Turn d (.clear r) d' ∨ Cleared d (.clear r) d' := by
  have h : Payments.ledger.clear.run d = (r, d') := h
  rcases Payments.ledger.clear_cases d with ⟨f, q, hclear, hq, hb⟩ | ⟨q, hclear, hq, hb⟩
  · cases hclear.symm.trans h
    exact .inl (.of_backing_eq hq.uuid hq.drawn.ge hb rfl)
  · cases hclear.symm.trans h
    exact .inr ⟨rfl, hq.uuid, hq.drawn, Payments.records_of_saves (List.forall_mem_nil _) hb⟩

/-- A deed lets the sessions age and adds others, unless it removes all of them. -/
theorem Does.cases (h : Does d c d') (hb : Payments.Books d) : Turn d c d' ∨ Cleared d c d' := by
  cases h with
  | create hm h => exact .inl (.of_adds (adds_of_create hb hm h).1 rfl)
  | confirm h | fail h => exact .inl (.of_update hb nofun h)
  | confirmPayment h => exact .inl (.of_confirmPayment hb h)
  | @run σ o t script further plan s' h =>
    rw [Runner.run_eq_execute] at h
    have hadds := h ▸ Runner.execute_adds o _ ⟨d, t⟩ hb.plain
    exact .inl (.of_adds hadds rfl)
  | @execute σ o t plan plan' s' h =>
    have hadds := h ▸ Runner.execute_adds o plan ⟨d, t⟩ hb.plain
    exact .inl (.of_adds hadds rfl)
  | list h => exact .inl (.of_list h)
  | clear h => exact clear_cases h
  | clock now => exact .inl (.of_backing_eq rfl le_rfl rfl rfl)
  | faults faults => exact .inl (.of_backing_eq rfl le_rfl rfl rfl)

end Deed

end PageScript
