import PageScript.Proofs.Plans
import PageScript.Proofs.Runner.Upshots

/-!
# The stores mirror the plan

Carrying out a plan appends to what the stores hold what came of each effect, in the order of the
plan (`Runner.execute_mirrors_plan`).  The records of an effect with plain metadata are plain
(`Upshot.Of.plain`), so every later read finds them as they were written.
-/

namespace PageScript

open Json

namespace Effect

theorem plain_payload {e : Effect} {kind : String} {payload : Value} (he : e.Plain)
    (h : e.entry? = some (.event kind payload)) : payload.Plain 125 := by
  cases e with
  | log message =>
    cases h
    exact Value.plain_object (by simp [Members.Ascending]) (by simp [Value.plain_string])
  | addWatermark page text =>
    cases h
    have hlt : "page" < "text" := by decide
    exact Value.plain_object (List.pairwise_pair.2 hlt)
      (by simp [Value.plain_uint32, Value.plain_string])
  | highlightText text =>
    cases h
    exact Value.plain_object (by simp [Members.Ascending]) (by simp [Value.plain_string])
  | mintNft metadata =>
    cases h
    exact he.mono (by omega)
  | lockPages | runPayment | unknown => cases h

end Effect

namespace Upshot

/-- The records of an effect are read back as they are written. -/
theorem Of.plain {now : Int64} {uuid : ℕ → String} {n : ℕ} {e : Effect} {out : Upshot}
    (h : Of now uuid n e out) (he : e.Plain) :
    (∀ s ∈ out.sessions, s.Plain 124) ∧ ∀ v ∈ out.events, v.Plain 125 := by
  have hsession {amountCents : UInt64} {metadata : Members} (uuid : String)
      (h : e.entry? = some (.session amountCents metadata)) :
      (Upshot.opened amountCents metadata now uuid).Plain 124 := by
    intro m hm
    cases hm
    exact Effect.plain_metadata h
  cases h with
  | nothing | lost | unopened => exact ⟨List.forall_mem_nil _, List.forall_mem_nil _⟩
  | recorded h =>
    exact ⟨List.forall_mem_nil _, List.forall_mem_singleton.2 (Effect.plain_payload he h)⟩
  | opened h hs =>
    have hp := hs ▸ hsession (uuid n) h
    have hpayload := Session.payload_of_pending (congrArg Session.status hs)
      (congrArg Session.metadata hs) (Effect.plain_metadata h).sorted_eq
    have hcreated := hpayload ▸ Session.plain_payload hp
    exact ⟨List.forall_mem_singleton.2 hp, List.forall_mem_singleton.2 hcreated⟩
  | orphaned h hs =>
    have hp := hs ▸ hsession (uuid n) h
    exact ⟨List.forall_mem_singleton.2 hp, List.forall_mem_nil _⟩

/-- How effects may go one after the other. -/
inductive OfAll (now : Int64) (uuid : ℕ → String) : ℕ → List Effect → List Upshot → Prop
  | nil (n : ℕ) : OfAll now uuid n [] []
  | cons {n : ℕ} {e : Effect} {es : List Effect} {out : Upshot} {outs : List Upshot}
    (h : Of now uuid n e out) (hrest : OfAll now uuid (n + out.drawn) es outs) :
    OfAll now uuid n (e :: es) (out :: outs)

end Upshot

/-- What is taken down before the effects of a plan. -/
def Plan.opening (plan : Plan) : List Occurrence :=
  plan.explanation.toList.map fun explanation => .hook (.log ("[MockAI] " ++ explanation))

namespace Runner

variable {σ : Type}

/-- What comes of an effect is appended to what the stores hold. -/
theorem Comes.holds {o : Observer σ} {s s' : Stage σ} {out : Upshot} {events : List Event}
    {sessions : List Session} (h : Comes o s out s')
    (hs : ∀ s ∈ out.sessions, s.Plain 125) (he : ∀ e ∈ out.events, e.Plain 125)
    (hb : s.desk.backing.Holds events sessions) :
    s'.desk.backing.Holds (events ++ out.events) (sessions ++ out.sessions) := by
  obtain ⟨b, hp, hc⟩ := h.saved
  exact (hb.extends_payments hs hp).extends_chain he hc

/-- What comes of effects, one after the other, is appended to what the stores hold. -/
theorem steps_cases (o : Observer σ) {es : List Effect} (he : ∀ e ∈ es, e.Plain) (s : Stage σ)
    {events : List Event} {sessions : List Session}
    (hb : s.desk.backing.Holds events sessions) :
    ∃ outs s', steps o es s = ((), s') ∧
      Upshot.OfAll s.desk.now s.desk.ids.uuid s.desk.ids.drawn es outs ∧
      Reaches o s (outs.map (·.drawn)).sum (outs.flatMap (·.trace)) s' ∧
      s'.desk.backing.Holds (events ++ outs.flatMap (·.events))
        (sessions ++ outs.flatMap (·.sessions)) := by
  induction es generalizing s events sessions with
  | nil =>
    refine ⟨[], s, rfl, .nil _, .refl o s, ?_⟩
    simpa using hb
  | cons e rest ih =>
    obtain ⟨out, s₁, hstep, hof, hcomes⟩ := step_cases o e s
    obtain ⟨hsessions, hevents⟩ := hof.plain (he e List.mem_cons_self)
    have hb₁ := hcomes.holds (fun s hs m hm => (hsessions s hs m hm).mono (by omega)) hevents hb
    have hr := hcomes.reaches
    obtain ⟨outs, s', hsteps, hall, hreach, hb'⟩ :=
      ih (fun e' h => he e' (List.mem_cons_of_mem _ h)) s₁ hb₁
    rw [hr.now, hr.uuid, hr.drawn] at hall
    refine ⟨out :: outs, s', ?_, .cons hof hall, ?_, ?_⟩
    · rw [steps, bind_apply, hstep, hsteps]
    · simpa using hr.trans hreach
    · simpa using hb'

/-- From the stage `s` the plan led to the stage `s'`, and this is what came of its effects: the
events and the sessions are appended to those that could be read before, in the order of the plan,
and nothing is taken down but the explanation and what belongs to the effects. -/
structure Mirrors (o : Observer σ) (plan : Plan) (outs : List Upshot) (s s' : Stage σ) :
    Prop where
  upshots : Upshot.OfAll s.desk.now s.desk.ids.uuid s.desk.ids.drawn plan.effects outs
  chain : Chain.ledger.records s'.desk.backing =
    Chain.ledger.records s.desk.backing ++ outs.flatMap (·.events)
  payments : Payments.ledger.records s'.desk.backing =
    Payments.ledger.records s.desk.backing ++ outs.flatMap (·.sessions)
  record : s'.desk.record =
    s.desk.record ++ (o.hear (plan.opening ++ outs.flatMap (·.trace)) s.observer).1

theorem explain_reaches (o : Observer σ) (plan : Plan) (s : Stage σ) :
    ∃ s', execute o plan s = (do steps o plan.effects; return plan) s' ∧
      Reaches o s 0 plan.opening s' ∧ s'.desk.backing = s.desk.backing := by
  rcases plan with ⟨success, effects, _ | explanation⟩
  · exact ⟨s, rfl, .refl o s, rfl⟩
  · obtain ⟨s', hsay, hr, hb⟩ := tell_reaches o (.log ("[MockAI] " ++ explanation)) s
    have hsay : say o ("[MockAI] " ++ explanation) s = ((), s') := hsay
    refine ⟨s', ?_, hr, hb⟩
    simp only [execute, bind_apply, hsay]

theorem execute_cases (o : Observer σ) {plan : Plan} (he : ∀ e ∈ plan.effects, e.Plain)
    (s : Stage σ) {events : List Event} {sessions : List Session}
    (hb : s.desk.backing.Holds events sessions) :
    ∃ outs s', execute o plan s = (plan, s') ∧
      Upshot.OfAll s.desk.now s.desk.ids.uuid s.desk.ids.drawn plan.effects outs ∧
      Reaches o s (outs.map (·.drawn)).sum (plan.opening ++ outs.flatMap (·.trace)) s' ∧
      s'.desk.backing.Holds (events ++ outs.flatMap (·.events))
        (sessions ++ outs.flatMap (·.sessions)) := by
  obtain ⟨s₁, hexecute, hr₁, hb₁⟩ := explain_reaches o plan s
  obtain ⟨outs, s', hsteps, hall, hr, hb'⟩ := steps_cases o he s₁ (hb₁ ▸ hb)
  rw [hr₁.now, hr₁.uuid, hr₁.drawn] at hall
  have hreach := hr₁.trans hr
  rw [Nat.zero_add] at hreach
  refine ⟨outs, s', ?_, hall, hreach, hb'⟩
  rw [hexecute, bind_apply, hsteps]
  rfl

/-- A plan read from text is mirrored by the stores, whatever they held, whichever accesses fail
and whatever the observer refuses. -/
theorem execute_mirrors_plan {bytes : ByteArray} {plan : Plan}
    (hplan : Plan.format.decodeOne? bytes = some plan) (he : ∀ e ∈ plan.effects, e.Exact)
    (o : Observer σ) (s : Stage σ)
    (hevents : ∀ e ∈ Chain.ledger.records s.desk.backing, e.payload.Exact)
    (hsessions : ∀ p ∈ Payments.ledger.records s.desk.backing,
      ∀ m ∈ p.metadata, (Value.object m).Exact) :
    ∃ outs s', execute o plan s = (plan, s') ∧ Mirrors o plan outs s s' := by
  obtain ⟨outs, s', hexecute, hall, hr, hb⟩ :=
    execute_cases o (Plan.plain_effects hplan he) s (Backing.holds_records hevents hsessions)
  exact ⟨outs, s', hexecute, hall, hb.chain, hb.payments, hr.record⟩

/-- The third time that the chain is saved the disk is full. -/
theorem execute_mirrors_plan_full_disk :
    let text := "\x7b\"success\":true,\"effects\":" ++
      "[[\"log\",\"hi\"],[\"lockPages\",[2,3],null],[\"runPayment\",250]]\x7d"
    let plan : Plan := ⟨true, [.log "hi", .lockPages [2, 3] none, .runPayment 250 none], none⟩
    let fault : Fault := ⟨.save, some "pdfx_mock_chain", 2, none, .internal "disk full"⟩
    let s : Stage Unit :=
      ⟨⟨.memory [], [fault], 0, ⟨fun n => String.ofList (List.replicate n 'a'), 0⟩, []⟩, ()⟩
    let pages : Members := [("pages", .array [.nat 2, .nat 3]), ("reason", .string "lockPages")]
    Plan.format.decodeOne? text.toUTF8 = some plan ∧
      ∃ outs s', execute .silent plan s = (plan, s') ∧ Mirrors .silent plan outs s s' ∧
        Chain.ledger.records s'.desk.backing =
          [⟨"ev_0_", "log", .object [("message", .string "hi")], 0⟩,
            ⟨"ev_0_aa", "payment_session_created", .object [("amountCents", .nat 500),
              ("createdAt", .int 0), ("currency", .string "usd"), ("id", .string "mockpay_0_a"),
              ("metadata", .object pages), ("status", .string "pending")], 0⟩] ∧
        Payments.ledger.records s'.desk.backing =
          [⟨"mockpay_0_a", 500, "usd", .pending, 0, some pages⟩,
            ⟨"mockpay_0_aaa", 250, "usd", .pending, 0, some [("reason", .null)]⟩] ∧
        s'.desk.record =
          [.pause, .hook (.log "hi"), .loaded "pdfx_mock_chain", .saved "pdfx_mock_chain",
            .pause, .hook (.lockPages [2, 3] none),
            .loaded "pdfx_mock_payments", .saved "pdfx_mock_payments",
            .loaded "pdfx_mock_chain", .saved "pdfx_mock_chain",
            .hook (.log "Created mock payment session mockpay_0_a for unlocking pages."),
            .pause, .loaded "pdfx_mock_payments", .saved "pdfx_mock_payments",
            .loaded "pdfx_mock_chain",
            .saveFailed "pdfx_mock_chain" (.internal "disk full"),
            .hook (.log "Failed to record runPayment: Internal error: disk full")] := by
  intro text plan fault s pages
  have hplan : Plan.format.decodeOne? text.toUTF8 = some plan := rfl
  have hevents : Chain.ledger.records s.desk.backing = [] := rfl
  have hsessions : Payments.ledger.records s.desk.backing = [] := rfl
  obtain ⟨outs, s', hexecute, hmirrors⟩ := execute_mirrors_plan hplan (by simp [plan, Effect.Exact])
    .silent s (by simp [hevents]) (by simp [hsessions])
  obtain rfl : (execute .silent plan s).2 = s' := by rw [hexecute]
  exact ⟨hplan, outs, _, hexecute, hmirrors, by decide +kernel, by decide +kernel,
    by decide +kernel⟩

end Runner

end PageScript
