import PageScript.Proofs.Runner.Upshots

/-!
# What confirming a payment comes to

Settling replaces the first session with an id by the same session with another status, if it is
pending (`Payments.settleFirst_cases`).  A confirmation first does that in the payments ledger and
then appends an event to the chain.  It can end in four ways (`Runner.Confirms`): nothing could be
settled for want of access, there was nothing to settle, the session was settled and the event is
missing, or all went well.
-/

namespace PageScript

open Json

namespace Payments

theorem settle?_eq_some {s p : Session} {status : Status} (h : s.settle? status = some p) :
    s.status = .pending ∧ p = { s with status } := by
  simp only [Session.settle?, Session.isPending, decide_eq_true_eq] at h
  split at h
  · rename_i hp
    cases h
    exact ⟨hp, rfl⟩
  · cases h

/-- What is settled is the first session with the id, and nothing else changes. -/
theorem settleFirst_cases {id : String} {status : Status} {sessions changed : List Session}
    {p : Session} (h : settleFirst id status sessions = (some p, changed)) :
    ∃ before s after, sessions = before ++ s :: after ∧ (∀ r ∈ before, r.id ≠ id) ∧ s.id = id ∧
      s.status = .pending ∧ p = { s with status } ∧ changed = before ++ p :: after := by
  induction sessions generalizing changed with
  | nil => cases h
  | cons s rest ih =>
    rw [settleFirst] at h
    split at h
    · rename_i hid
      split at h
      · rename_i settled hs
        cases h
        obtain ⟨hpending, hp⟩ := settle?_eq_some hs
        exact ⟨[], s, rest, rfl, List.forall_mem_nil _, hid, hpending, hp, rfl⟩
      · cases h
    · rename_i hid
      rcases hr : settleFirst id status rest with ⟨settled, changed'⟩
      rw [hr] at h
      cases h
      obtain ⟨before, q, after, rfl, hb, hq⟩ := ih hr
      obtain ⟨hqid, hpending, hp, rfl⟩ := hq
      exact ⟨s :: before, q, after, rfl, List.forall_mem_cons.2 ⟨hid, hb⟩, hqid, hpending, hp,
        rfl⟩

theorem plain_settleFirst {id : String} {status : Status} {sessions changed : List Session}
    {p : Session} {room : ℕ} (h : settleFirst id status sessions = (some p, changed))
    (hp : ∀ s ∈ sessions, s.Plain room) : ∀ s ∈ changed, s.Plain room := by
  obtain ⟨before, s, after, rfl, -, -, -, rfl, rfl⟩ := settleFirst_cases h
  obtain ⟨hbefore, hrest⟩ := List.forall_mem_append.1 hp
  obtain ⟨hs, hafter⟩ := List.forall_mem_cons.1 hrest
  exact List.forall_mem_append.2
    ⟨hbefore, List.forall_mem_cons.2 ⟨hs.withStatus status, hafter⟩⟩

theorem settleFirst_append {id : String} {status : Status} {before rest : List Session}
    (h : ∀ r ∈ before, r.id ≠ id) :
    settleFirst id status (before ++ rest) =
      ((settleFirst id status rest).1, before ++ (settleFirst id status rest).2) := by
  induction before with
  | nil => rfl
  | cons r before ih =>
    obtain ⟨hr, hbefore⟩ := List.forall_mem_cons.1 h
    rw [List.cons_append, settleFirst, if_neg hr, ih hbefore]
    rfl

/-- When ids are all different, so are those of the sessions beside one. -/
theorem ne_id_of_nodup {before after : List Session} {s : Session}
    (h : ((before ++ s :: after).map (·.id)).Nodup) : ∀ r ∈ before ++ after, r.id ≠ s.id := by
  rw [List.map_append, List.map_cons, List.nodup_middle, List.nodup_cons, ← List.map_append] at h
  exact fun r hr heq => h.1 (heq ▸ List.mem_map_of_mem hr)

/-- A session that was settled is not settled again. -/
theorem settleFirst_settled {id : String} {status again : Status}
    {sessions changed : List Session} {p : Session}
    (h : settleFirst id status sessions = (some p, changed)) (hs : status ≠ .pending) :
    (settleFirst id again changed).1 = none := by
  obtain ⟨before, s, after, -, hb, hid, -, rfl, rfl⟩ := settleFirst_cases h
  rw [settleFirst_append hb, settleFirst, if_pos hid]
  simp [Session.settle?, Session.isPending, hs]

end Payments

namespace Runner

variable {σ : Type}

/-- The log call a confirmation begins with. -/
def attempt (id : String) : HookCall :=
  .log ("Attempting to confirm mock payment: " ++ id)

/-- The log call for a session that was confirmed. -/
def success (id : String) : HookCall :=
  .log ("Payment " ++ id ++ " confirmed successfully!")

/-- The log call for a session that was not there or no longer pending. -/
def refusal (id : String) : HookCall :=
  .log ("Failed to confirm payment " ++ id ++ ".")

def confirmedPayload (id : String) : Value :=
  .object [("sessionId", .string id)]

/-- The event of a confirmation. -/
def confirmation (id : String) (now : Int64) (uuid : String) : Event :=
  Upshot.recorded "payment_confirmed" (confirmedPayload id) now uuid

/-- How confirming the payment `id` from the stage `s` on may end. -/
inductive Confirms (o : Observer σ) (id : String) (s : Stage σ) :
    Except Failure (Option Session) × Stage σ → Prop
  | failed {f : Failure} {w : List Occurrence} {s' : Stage σ}
    (hw : Ledger.Failed Payments.ledger.key f w) (hr : Reaches o s 0 (.hook (attempt id) :: w) s')
    (hb : s'.desk.backing = s.desk.backing) : Confirms o id s (.error f, s')
  | refused {s' : Stage σ}
    (hc : (Payments.settleFirst id .paid (Payments.ledger.records s.desk.backing)).1 = none)
    (hr : Reaches o s 0
      [.hook (attempt id), .loaded Payments.ledger.key, .hook (refusal id)] s')
    (hb : s'.desk.backing = s.desk.backing) : Confirms o id s (.ok none, s')
  | half {p : Session} {changed : List Session} {f : Failure} {w : List Occurrence}
    {s' : Stage σ}
    (hc : Payments.settleFirst id .paid (Payments.ledger.records s.desk.backing) =
      (some p, changed))
    (hw : Ledger.Failed Chain.ledger.key f w)
    (hr : Reaches o s 1 (.hook (attempt id) :: Upshot.rewritten Payments.ledger.key ++
      .hook (success id) :: w) s')
    (hp : Payments.ledger.Saves changed s.desk.backing s'.desk.backing) :
    Confirms o id s (.error f, s')
  | confirmed {p : Session} {changed : List Session} {b : Backing} {s' : Stage σ}
    (hc : Payments.settleFirst id .paid (Payments.ledger.records s.desk.backing) =
      (some p, changed))
    (hr : Reaches o s 1 (.hook (attempt id) :: Upshot.rewritten Payments.ledger.key ++
      .hook (success id) :: Upshot.rewritten Chain.ledger.key) s')
    (hp : Payments.ledger.Saves changed s.desk.backing b)
    (he : Chain.ledger.Extends b
      [confirmation id s.desk.now (s.desk.ids.uuid s.desk.ids.drawn)] s'.desk.backing) :
    Confirms o id s (.ok (some p), s')

theorem confirms_confirmPayment (o : Observer σ) (id : String) (s : Stage σ) :
    Confirms o id s ((confirmPayment o id).run s) := by
  obtain ⟨s₁, hattempt, hr₁, hb₁⟩ := tell_reaches o (attempt id) s
  have hsay := run_lift_of_eq hattempt
  have hupdate := Payments.ledger.updates_update (Payments.settleFirst id .paid) s₁.desk
  have hstart : (confirmPayment o id).run s = _ := run_bind_of_ok hsay _
  rw [hstart]
  rcases hc : (Payments.confirm id).run s₁.desk with ⟨r, q⟩
  have hc' : (Payments.ledger.update (Payments.settleFirst id .paid)).run s₁.desk = (r, q) := hc
  rw [hc'] at hupdate
  cases hupdate with
  | failed hw hq hb =>
    obtain ⟨hdesk, hr⟩ := atDesk_reaches o hc hq (unheard_of_failed hw)
    rw [run_bind_of_error hdesk]
    exact .failed hw (hr₁.trans hr) (hb.trans hb₁)
  | unchanged hnone hq hb =>
    obtain ⟨hdesk, hr⟩ := atDesk_reaches o hc hq (by simp [Unheard])
    obtain ⟨s₂, hrefuse, hr₂, hb₂⟩ := tell_reaches o (refusal id) ⟨q, s₁.observer⟩
    have hend := run_bind_of_ok (run_lift_of_eq hrefuse)
      fun _ => (pure none : ExceptT Failure (StateM (Stage σ)) (Option Session))
    rw [run_bind_of_ok hdesk]
    rw [hb₁] at hnone
    exact hend ▸ .refused hnone ((hr₁.trans hr).trans hr₂) (hb₂.trans (hb.trans hb₁))
  | saved hsome hq hb =>
    rename_i p changed
    obtain ⟨hdesk, hr⟩ := atDesk_reaches o hc hq (unheard_rewritten _)
    obtain ⟨s₂, hsuccess, hr₂, hb₂⟩ := tell_reaches o (success id) ⟨q, s₁.observer⟩
    have hreach := (hr₁.trans hr).trans hr₂
    rw [hb₁] at hsome hb
    have hpush := pushes_push o "payment_confirmed" (confirmedPayload id) s₂
    have hrest := run_bind_of_ok (run_lift_of_eq hsuccess) fun _ => do
      discard <| atDesk <| Chain.push "payment_confirmed" (confirmedPayload id)
      return some p
    rw [run_bind_of_ok hdesk]
    refine hrest ▸ ?_
    rcases hp : (discard <| atDesk <| Chain.push "payment_confirmed" (confirmedPayload id)).run
      s₂ with ⟨r', s'⟩
    rw [hp] at hpush
    cases hpush with
    | failed hw hr' hb' =>
      rw [run_bind_of_error hp]
      refine .half hsome hw ?_ ?_
      · simpa [Upshot.rewritten] using hreach.trans hr'
      · rw [hb', hb₂]
        exact hb
    | added hr' hb' =>
      rw [run_bind_of_ok hp]
      rw [hreach.now, hreach.uuid, hreach.drawn, hb₂] at hb'
      refine .confirmed hsome ?_ hb hb'
      simpa [Upshot.rewritten] using hreach.trans hr'

end Runner

end PageScript
