import PageScript.Proofs.Agreement

/-!
# Chain and payments agree

`Runner.Operates` are the operations on the stores: running scripts and plans, confirming payments,
the payment store's own operations, and moves of the clock, while the faults may be replaced at
any time.  Events enter the chain, and sessions the payments ledger, only through them.

What an operation makes of the records of both stores is one of five things (`Runner.Revises`,
`Runner.Operates.revised`), each of which keeps chain and payments in agreement
(`Runner.Consistent.operates`).  So from a fresh desk they only ever lead to desks whose chain and
payments agree (`Runner.stores_agree`), as long as no two of the unique ids drawn are the same.
-/

namespace PageScript

open Json

namespace Script

theorem plain_mint (now : Int64) :
    (Value.object (Members.ofList [("title", .string Rule.editionTitle),
      ("timestamp", .int now.toInt)])).Plain 124 := by
  refine Value.plain_object (Members.ascending_ofList _) fun m hm => ?_
  have hm := Members.mem_of_mem_ofList hm
  simp only [List.mem_cons, List.not_mem_nil, or_false] at hm
  rcases hm with rfl | rfl
  · exact Value.plain_string _ _
  · exact Value.plain_int64 _ now

theorem plain_builtIn {r : Rule} (hr : r ∈ Rule.builtIn) (s : Script) :
    ∀ e ∈ r.build s, e.Plain := by
  simp only [Rule.builtIn, List.mem_cons, List.not_mem_nil, or_false] at hr
  rcases hr with rfl | rfl | rfl
  · exact fun e he => by
      simp only [Rule.watermark, Rule.watermarkEffects, List.mem_cons, List.not_mem_nil,
        or_false] at he
      rcases he with rfl | rfl <;> trivial
  · exact fun e he => by
      simp only [Rule.lockPages, Rule.lockEffects, List.mem_cons, List.not_mem_nil,
        or_false] at he
      rcases he with rfl | rfl <;> trivial
  · exact fun e he => by
      simp only [Rule.mint, List.mem_cons, List.not_mem_nil, or_false] at he
      rcases he with rfl | rfl
      · exact plain_mint s.now
      · trivial

/-- The effects that scripts are interpreted as can all be recorded. -/
theorem plain_interpret {further : List Rule}
    (hf : ∀ r ∈ further, ∀ s, ∀ e ∈ r.build s, e.Plain) (now : Int64) (text : String) :
    ∀ e ∈ (interpret further now text).effects, e.Plain := by
  intro e he
  simp only [interpret, effects] at he
  split at he
  · simp only [Rule.fallback, List.mem_cons, List.not_mem_nil, or_false] at he
    rcases he with rfl | rfl <;> trivial
  · obtain ⟨r, hr, hb⟩ := List.mem_flatMap.1 he
    rcases List.mem_append.1 (List.mem_filter.1 hr).1 with hr | hr
    · exact plain_builtIn hr _ e hb
    · exact hf r hr _ e hb

end Script

namespace Runner

theorem run_eq_execute {σ : Type} (o : Observer σ) (further : List Rule) (script : String)
    (s : Stage σ) :
    run o further script s = execute o (Script.interpret further s.desk.now script) s := by
  have hget : (get : StateM (Stage σ) (Stage σ)) s = (s, s) := rfl
  rw [run, bind_apply, hget]

/-- The desk `d'` is left by one operation at the desk `d`, with whatever result. -/
inductive Operates (d : Desk) : Desk → Prop
  | run {σ : Type} {o : Observer σ} {t : σ} {script : String} {further : List Rule}
    {plan : Plan} {s' : Stage σ} (hf : ∀ r ∈ further, ∀ s, ∀ e ∈ r.build s, e.Plain)
    (h : Runner.run o further script ⟨d, t⟩ = (plan, s')) : Operates d s'.desk
  | execute {σ : Type} {o : Observer σ} {t : σ} {bytes : ByteArray} {plan plan' : Plan}
    {s' : Stage σ} (hplan : Plan.format.decodeOne? bytes = some plan)
    (he : ∀ e ∈ plan.effects, e.Exact)
    (h : Runner.execute o plan ⟨d, t⟩ = (plan', s')) : Operates d s'.desk
  | confirmPayment {σ : Type} {o : Observer σ} {t : σ} {id : String}
    {r : Except Failure (Option Session)} {s' : Stage σ}
    (h : (Runner.confirmPayment o id).run ⟨d, t⟩ = (r, s')) : Operates d s'.desk
  | create {amountCents : UInt64} {currency : Option String} {metadata : Option Members}
    {r : Except Failure Session} {d' : Desk}
    (hm : ∀ m ∈ metadata, (Value.object m).Plain 120)
    (h : (Payments.create amountCents currency metadata).run d = (r, d')) : Operates d d'
  | confirm {id : String} {r : Except Failure (Option Session)} {d' : Desk}
    (h : (Payments.confirm id).run d = (r, d')) : Operates d d'
  | fail {id : String} {r : Except Failure (Option Session)} {d' : Desk}
    (h : (Payments.fail id).run d = (r, d')) : Operates d d'
  | clock (now : Int64) : Operates d { d with now }
  | faults (faults : List Fault) : Operates d { d with faults }

/-- The desk `d'` is left by something that drew `k` ids at the desk `d`, and holds these
records. -/
structure Leaves (d : Desk) (k : ℕ) (events : List Event) (sessions : List Session) (d' : Desk) :
    Prop where
  uuid : d'.ids.uuid = d.ids.uuid
  drawn : d'.ids.drawn = d.ids.drawn + k
  holds : d'.backing.Holds events sessions

/-- What one operation at the time `now` makes of the records, when it draws so many unique ids and
the first of them is `uuid n`. -/
inductive Revises (now : Int64) (uuid : ℕ → String) (n : ℕ) (events : List Event)
    (sessions : List Session) : ℕ → List Event → List Session → Prop
  | kept (k : ℕ) : Revises now uuid n events sessions k events sessions
  | carried {es : List Effect} {outs : List Upshot} (h : Upshot.OfAll now uuid n es outs) :
    Revises now uuid n events sessions (outs.map (·.drawn)).sum
      (events ++ outs.flatMap (·.events)) (sessions ++ outs.flatMap (·.sessions))
  | created {s : Session} (h : s.id = Session.idOf s.createdAt (uuid n)) :
    Revises now uuid n events sessions 1 events (sessions ++ [s])
  | settled {id : String} {status : Status} {p : Session} {changed : List Session} (k : ℕ)
    (h : Payments.settleFirst id status sessions = (some p, changed)) :
    Revises now uuid n events sessions k events changed
  | confirmed {id : String} {p : Session} {changed : List Session}
    (h : Payments.settleFirst id .paid sessions = (some p, changed)) :
    Revises now uuid n events sessions 1 (events ++ [confirmation id now (uuid n)]) changed

/-- From the desk `d`, which holds these records, to the desk `d'` they were revised. -/
def Revised (d : Desk) (events : List Event) (sessions : List Session) (d' : Desk) : Prop :=
  ∃ k events' sessions', Leaves d k events' sessions' d' ∧
    Revises d.now d.ids.uuid d.ids.drawn events sessions k events' sessions'

section Revised

variable {d d' : Desk} {events : List Event} {sessions : List Session}

/-- An operation that leaves the backing as it was. -/
theorem revised_of_backing_eq (h : d.backing.Holds events sessions) {k : ℕ}
    (huuid : d'.ids.uuid = d.ids.uuid) (hdrawn : d'.ids.drawn = d.ids.drawn + k)
    (hb : d'.backing = d.backing) : Revised d events sessions d' :=
  ⟨k, events, sessions, ⟨huuid, hdrawn, hb ▸ h⟩, .kept k⟩

theorem revised_of_settle (h : d.backing.Holds events sessions) {id : String} {status : Status}
    {p : Session} {changed : List Session} {k : ℕ}
    (hc : Payments.settleFirst id status (Payments.ledger.records d.backing) =
      (some p, changed)) (huuid : d'.ids.uuid = d.ids.uuid)
    (hdrawn : d'.ids.drawn = d.ids.drawn + k)
    (hs : Payments.ledger.Saves changed d.backing d'.backing) : Revised d events sessions d' := by
  rw [h.payments] at hc
  have hplain := Payments.plain_settleFirst hc h.plain_sessions
  exact ⟨k, _, _, ⟨huuid, hdrawn, h.saves_payments hplain hs⟩, .settled k hc⟩

theorem revised_of_execute (h : d.backing.Holds events sessions) {σ : Type} {o : Observer σ}
    {t : σ} {plan plan' : Plan} {s' : Stage σ} (he : ∀ e ∈ plan.effects, e.Plain)
    (hr : Runner.execute o plan ⟨d, t⟩ = (plan', s')) : Revised d events sessions s'.desk := by
  obtain ⟨outs, s'', hexecute, hall, hreach, hb⟩ := execute_cases o he ⟨d, t⟩ h
  rw [hr] at hexecute
  cases hexecute
  exact ⟨_, _, _, ⟨hreach.uuid, hreach.drawn, hb⟩, .carried hall⟩

theorem revised_of_confirmPayment (h : d.backing.Holds events sessions) {σ : Type}
    {o : Observer σ} {t : σ} {id : String} {r : Except Failure (Option Session)} {s' : Stage σ}
    (hr : (Runner.confirmPayment o id).run ⟨d, t⟩ = (r, s')) :
    Revised d events sessions s'.desk := by
  have hc := confirms_confirmPayment o id ⟨d, t⟩
  rw [hr] at hc
  cases hc with
  | failed hw hr hb => exact revised_of_backing_eq h hr.uuid hr.drawn hb
  | refused hc hr hb => exact revised_of_backing_eq h hr.uuid hr.drawn hb
  | half hc hw hr hp => exact revised_of_settle h hc hr.uuid hr.drawn hp
  | confirmed hc hr hp he =>
    have hc : Payments.settleFirst id .paid (Payments.ledger.records d.backing) = _ := hc
    rw [h.payments] at hc
    have hplain := Payments.plain_settleFirst hc h.plain_sessions
    have hevent : (confirmation id d.now (d.ids.uuid d.ids.drawn)).Plain 125 :=
      Value.plain_object (List.pairwise_singleton _ _)
        (List.forall_mem_singleton.2 (Value.plain_string _ _))
    have hb := (h.saves_payments hplain hp).extends_chain (List.forall_mem_singleton.2 hevent) he
    exact ⟨_, _, _, ⟨hr.uuid, hr.drawn, hb⟩, .confirmed hc⟩

theorem revised_of_create (h : d.backing.Holds events sessions) {amountCents : UInt64}
    {currency : Option String} {metadata : Option Members} {r : Except Failure Session}
    (hm : ∀ m ∈ metadata, (Value.object m).Plain 120)
    (hr : (Payments.create amountCents currency metadata).run d = (r, d')) :
    Revised d events sessions d' := by
  have hc := Payments.adds_create amountCents currency metadata d
  rw [hr] at hc
  cases hc with
  | failed hw hq hb => exact revised_of_backing_eq h hq.uuid hq.drawn hb
  | added hq hb =>
    have hplain : (Payments.nextSession amountCents currency metadata d).Plain 125 :=
      fun m hmem => (hm m hmem).mono (by omega)
    have hb := h.extends_payments (List.forall_mem_singleton.2 hplain) (.one hb)
    exact ⟨_, _, _, ⟨hq.uuid, hq.drawn, hb⟩, .created rfl⟩

theorem revised_of_update (h : d.backing.Holds events sessions) {id : String} {status : Status}
    {r : Except Failure (Option Session)}
    (hr : (Payments.ledger.update (Payments.settleFirst id status)).run d = (r, d')) :
    Revised d events sessions d' := by
  have hc := Payments.ledger.updates_update (Payments.settleFirst id status) d
  rw [hr] at hc
  cases hc with
  | failed hw hq hb => exact revised_of_backing_eq h hq.uuid hq.drawn hb
  | unchanged hc hq hb => exact revised_of_backing_eq h hq.uuid hq.drawn hb
  | saved hc hq hb => exact revised_of_settle h hc hq.uuid hq.drawn hb

/-- What an operation does to the records of a desk. -/
theorem Operates.revised (ho : Operates d d') (h : d.backing.Holds events sessions) :
    Revised d events sessions d' := by
  cases ho with
  | run hf hr =>
    rw [run_eq_execute] at hr
    exact revised_of_execute h (Script.plain_interpret hf _ _) hr
  | execute hplan he hr => exact revised_of_execute h (Plan.plain_effects hplan he) hr
  | confirmPayment hr => exact revised_of_confirmPayment h hr
  | create hm hr => exact revised_of_create h hm hr
  | confirm hr => exact revised_of_update h hr
  | fail hr => exact revised_of_update h hr
  | clock now => exact revised_of_backing_eq h rfl (Nat.add_zero _).symm rfl
  | faults faults => exact revised_of_backing_eq h rfl (Nat.add_zero _).symm rfl

end Revised

/-- What the desk holds, and that it agrees if the unique ids drawn are different. -/
structure Consistent (d : Desk) (events : List Event) (sessions : List Session) : Prop where
  holds : d.backing.Holds events sessions
  agreement : Set.InjOn d.ids.uuid (Set.Iio d.ids.drawn) →
    Agreement d.ids.uuid d.ids.drawn events sessions

/-- An operation keeps a desk consistent, since it keeps its records in agreement. -/
theorem Consistent.operates {d d' : Desk} {events : List Event} {sessions : List Session}
    (h : Consistent d events sessions) (ho : Operates d d') :
    ∃ events' sessions', Consistent d' events' sessions' := by
  obtain ⟨k, events', sessions', hleaves, hrevises⟩ := ho.revised h.holds
  refine ⟨events', sessions', hleaves.holds, fun hinj => ?_⟩
  rw [hleaves.uuid, hleaves.drawn] at hinj ⊢
  have ha := h.agreement (hinj.mono (Set.Iio_subset_Iio (by omega)))
  cases hrevises with
  | kept k => exact ha.mono (by omega)
  | carried hall => exact ha.upshots hall hinj
  | created hs => exact ha.add_session hs hinj
  | settled k hc => exact (ha.settle hc).mono (by omega)
  | confirmed hc => exact (ha.confirm hc _ _).mono (by omega)

/-- Neither slot was ever written, and no id was drawn. -/
structure Fresh (d : Desk) : Prop where
  chain : d.backing.load Chain.ledger.key = .ok none
  payments : d.backing.load Payments.ledger.key = .ok none
  drawn : d.ids.drawn = 0

theorem Fresh.consistent {d : Desk} (h : Fresh d) : Consistent d [] [] where
  holds := by
    refine ⟨?_, ?_, List.forall_mem_nil _, List.forall_mem_nil _⟩
    · rw [Ledger.records, h.chain]
      rfl
    · rw [Ledger.records, h.payments]
      rfl
  agreement _ := .empty _ _

theorem consistent_of_operations {d₀ d : Desk} (h₀ : Fresh d₀)
    (h : Relation.ReflTransGen Operates d₀ d) :
    ∃ events sessions, Consistent d events sessions := by
  induction h with
  | refl => exact ⟨_, _, h₀.consistent⟩
  | tail _ ho ih =>
    obtain ⟨events, sessions, hc⟩ := ih
    exact hc.operates ho

/-- That the chain and the payments that can be read at a desk do not contradict each other. -/
structure StoresAgree (d : Desk) : Prop where
  /-- An opening on the chain is that of exactly one session, with each of its fields but the
  status, which is pending. -/
  created : ∀ e ∈ Chain.ledger.records d.backing, e.kind = "payment_session_created" →
    ∃ s metadata, (Payments.ledger.records d.backing).filter (·.id = s.id) = [s] ∧
      s.metadata = some metadata ∧
      e.payload = .object [("amountCents", .nat s.amountCents.toNat),
        ("createdAt", .int s.createdAt.toInt), ("currency", .string s.currency),
        ("id", .string s.id), ("metadata", .object metadata), ("status", .string "pending")]
  /-- A confirmation on the chain names a session that is paid. -/
  confirmed : ∀ e ∈ Chain.ledger.records d.backing, e.kind = "payment_confirmed" →
    ∃ s ∈ Payments.ledger.records d.backing, s.status = .paid ∧
      e.payload = .object [("sessionId", .string s.id)]
  /-- No two confirmations name the same session. -/
  once : (Chain.ledger.records d.backing).Pairwise fun e e' => e.kind = "payment_confirmed" →
    e'.kind = "payment_confirmed" → e.payload ≠ e'.payload

theorem filter_id_of_mem {sessions : List Session} {s : Session}
    (hnodup : (sessions.map (·.id)).Nodup) (hs : s ∈ sessions) :
    sessions.filter (·.id = s.id) = [s] := by
  obtain ⟨before, after, rfl⟩ := List.append_of_mem hs
  obtain ⟨hbefore, hafter⟩ := List.forall_mem_append.1 (Payments.ne_id_of_nodup hnodup)
  rw [List.filter_append, List.filter_cons_of_pos (by simp),
    List.filter_eq_nil_iff.2 (by simpa using hbefore),
    List.filter_eq_nil_iff.2 (by simpa using hafter), List.nil_append]

/-- Whatever is run, confirmed, created and settled from a fresh desk on, whichever accesses fail:
chain and payments agree, if no two of the unique ids drawn are the same. -/
theorem stores_agree {d₀ d : Desk} (h₀ : Fresh d₀) (h : Relation.ReflTransGen Operates d₀ d)
    (hinj : Set.InjOn d.ids.uuid (Set.Iio d.ids.drawn)) : StoresAgree d := by
  obtain ⟨events, sessions, hc⟩ := consistent_of_operations h₀ h
  have ha := hc.agreement hinj
  obtain ⟨hevents, hsessions, -, -⟩ := hc.holds
  refine ⟨?_, ?_, ?_⟩
  · rw [hevents, hsessions]
    intro e he hk
    obtain ⟨s, hs, metadata, hm, hp⟩ := ha.created e he hk
    exact ⟨s, metadata, filter_id_of_mem ha.nodup hs, hm, hp⟩
  · rw [hevents, hsessions]
    exact ha.confirmed
  · rw [hevents]
    exact ha.once

theorem stores_agree_after_payment :
    let d₀ : Desk := ⟨.memory [], [], 0, ⟨fun n => String.ofList (List.replicate n 'a'), 0⟩, []⟩
    let plan : Plan := ⟨true, [.runPayment 250 none], none⟩
    let paid : Session := ⟨"mockpay_0_", 250, "usd", .paid, 0, some [("reason", .null)]⟩
    let opening : Event := ⟨"ev_0_a", "payment_session_created", .object
      [("amountCents", .nat 250), ("createdAt", .int 0), ("currency", .string "usd"),
        ("id", .string "mockpay_0_"), ("metadata", .object [("reason", .null)]),
        ("status", .string "pending")], 0⟩
    let confirmation : Event :=
      ⟨"ev_0_aa", "payment_confirmed", .object [("sessionId", .string "mockpay_0_")], 0⟩
    Fresh d₀ ∧ ∃ s s', execute .silent plan ⟨d₀, ()⟩ = (plan, s) ∧
      (confirmPayment .silent "mockpay_0_").run s = (.ok (some paid), s') ∧
      StoresAgree s'.desk ∧ Payments.ledger.records s'.desk.backing = [paid] ∧
      Chain.ledger.records s'.desk.backing = [opening, confirmation] := by
  intro d₀ plan paid opening confirmation
  have h₀ : Fresh d₀ := ⟨rfl, rfl, rfl⟩
  have hplan : Plan.format.decodeOne?
      "\x7b\"success\":true,\"effects\":[[\"runPayment\",250]]\x7d".toUTF8 = some plan := rfl
  have he : ∀ e ∈ plan.effects, e.Exact := List.forall_mem_singleton.2 trivial
  have hr : ((confirmPayment .silent "mockpay_0_").run (execute .silent plan ⟨d₀, ()⟩).2).1 =
      .ok (some paid) := by decide +kernel
  have hpayments : Payments.ledger.records
      ((confirmPayment .silent "mockpay_0_").run
        (execute .silent plan ⟨d₀, ()⟩).2).2.desk.backing = [paid] := by decide +kernel
  have hchain : Chain.ledger.records
      ((confirmPayment .silent "mockpay_0_").run
        (execute .silent plan ⟨d₀, ()⟩).2).2.desk.backing = [opening, confirmation] := by
    decide +kernel
  obtain ⟨_, s, hexecute, _, hreach, hholds⟩ :=
    execute_cases .silent (Plan.plain_effects hplan he) ⟨d₀, ()⟩ h₀.consistent.holds
  rcases hconfirm : (confirmPayment .silent "mockpay_0_").run s with ⟨r, s'⟩
  rw [hexecute, hconfirm] at hr hpayments hchain
  obtain rfl : r = .ok (some paid) := hr
  have hconfirmed : Operates s.desk s'.desk := .confirmPayment hconfirm
  obtain ⟨_, _, _, hleaves, -⟩ := hconfirmed.revised hholds
  have hinj : Function.Injective d₀.ids.uuid := fun m n h => by
    simpa using congrArg List.length (String.ofList_injective h)
  have hagree := stores_agree h₀ (.tail (.single (.execute hplan he hexecute)) hconfirmed)
    (by rw [hleaves.uuid, hreach.uuid]; exact hinj.injOn)
  exact ⟨h₀, s, s', hexecute, hconfirm, hagree, hpayments, hchain⟩

end Runner

end PageScript
