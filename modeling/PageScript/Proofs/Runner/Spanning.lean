import PageScript.Proofs.Runner.Confirming

/-!
# Failures between the two stores

Opening a session and confirming a payment save in the payments ledger first and in the chain
after that.  The two are not one: when the chain cannot be accessed, what was saved in the payments
ledger stays (`Runner.Halfway`), and only when the payments ledger cannot be accessed are both as
they were (`Runner.Untouched`).  A confirmation that stopped halfway cannot be made up for, since
the session is no longer pending (`Runner.failures_across_stores`).
-/

namespace PageScript

open Json

variable {σ : Type}

def Occurrence.isAccess : Occurrence → Bool
  | .loaded _ | .loadFailed _ _ | .saved _ | .saveFailed _ _ => true
  | .hook _ | .pause => false

/-- The accesses to slots on record. -/
def Desk.accesses (d : Desk) : List Occurrence :=
  d.record.filter Occurrence.isAccess

namespace Runner

theorem Reaches.accesses {o : Observer σ} {s s' : Stage σ} {n : ℕ} {w : List Occurrence}
    (h : Reaches o s n w s') :
    s'.desk.accesses = s.desk.accesses ++ w.filter Occurrence.isAccess := by
  have hhook : ∀ c, (Occurrence.hook c).isAccess = false := fun _ => rfl
  rw [Desk.accesses, h.record, List.filter_append, Observer.filter_hear o hhook]
  rfl

theorem filter_isAccess_failed {key : String} {f : Failure} {w : List Occurrence}
    (h : Ledger.Failed key f w) : w.filter Occurrence.isAccess = w := by
  cases h <;> rfl

theorem filter_isAccess_rewritten (key : String) :
    (Upshot.rewritten key).filter Occurrence.isAccess = Upshot.rewritten key := rfl

theorem filter_isAccess_hook (c : HookCall) (w : List Occurrence) :
    (.hook c :: w).filter Occurrence.isAccess = w.filter Occurrence.isAccess := rfl

theorem filter_isAccess_calls (calls : List HookCall) :
    (calls.map Occurrence.hook).filter Occurrence.isAccess = [] := by
  simp [List.filter_eq_nil_iff, Occurrence.isAccess]

/-- Between the stages `s` and `s'` an access to the payments failed and nothing was saved. -/
structure Untouched (f : Failure) (s s' : Stage σ) : Prop where
  backing : s'.desk.backing = s.desk.backing
  accesses : ∃ w, Ledger.Failed Payments.ledger.key f w ∧
    s'.desk.accesses = s.desk.accesses ++ w

/-- Between the stages `s` and `s'` the payments `changed` were saved and an access to the chain
failed. -/
structure Halfway (changed : List Session) (f : Failure) (s s' : Stage σ) : Prop where
  payments : s'.desk.backing.load Payments.ledger.key =
    .ok (some (Session.format.encode changed))
  chain : s'.desk.backing.load Chain.ledger.key = s.desk.backing.load Chain.ledger.key
  accesses : ∃ w, Ledger.Failed Chain.ledger.key f w ∧
    s'.desk.accesses = s.desk.accesses ++ (Upshot.rewritten Payments.ledger.key ++ w)

theorem halfway_of_saves {changed : List Session} {f : Failure} {o : Observer σ}
    {s s' : Stage σ} {n : ℕ} {v w : List Occurrence}
    (hp : Payments.ledger.Saves changed s.desk.backing s'.desk.backing)
    (hw : Ledger.Failed Chain.ledger.key f w) (hr : Reaches o s n v s')
    (hv : v.filter Occurrence.isAccess = Upshot.rewritten Payments.ledger.key ++ w) :
    Halfway changed f s s' where
  payments := Backing.load_save_self hp
  chain := Backing.load_save_of_ne isSlotName_payments isSlotName_chain
    chain_key_ne_payments_key hp
  accesses := ⟨w, hw, by rw [hr.accesses, hv]⟩

theorem confirmPayment_failed {o : Observer σ} {id : String} {s s' : Stage σ} {f : Failure}
    (h : (confirmPayment o id).run s = (.error f, s')) :
    Untouched f s s' ∨ ∃ p changed,
      Payments.settleFirst id .paid (Payments.ledger.records s.desk.backing) =
        (some p, changed) ∧ Halfway changed f s s' ∧
      Payments.ledger.Saves changed s.desk.backing s'.desk.backing := by
  have hc := confirms_confirmPayment o id s
  rw [h] at hc
  cases hc with
  | failed hw hr hb =>
    refine .inl ⟨hb, _, hw, ?_⟩
    rw [hr.accesses, filter_isAccess_hook, filter_isAccess_failed hw]
  | half hc hw hr hp =>
    refine .inr ⟨_, _, hc, halfway_of_saves hp hw hr ?_, hp⟩
    rw [List.cons_append, filter_isAccess_hook, List.filter_append, filter_isAccess_rewritten,
      filter_isAccess_hook, filter_isAccess_failed hw]

/-- A session that was settled halfway is not confirmed by a later attempt. -/
theorem not_confirmed_of_saves {σ' : Type} {o : Observer σ'} {id : String} {b : Backing}
    {p : Session} {changed : List Session}
    (he : ∀ q ∈ Payments.ledger.records b, ∀ m ∈ q.metadata, (Value.object m).Exact)
    (hc : Payments.settleFirst id .paid (Payments.ledger.records b) = (some p, changed))
    {s : Stage σ'} (hs : Payments.ledger.Saves changed b s.desk.backing) (q : Session) :
    ((confirmPayment o id).run s).1 ≠ .ok (some q) := by
  have hplain := Payments.plain_records he
  have hrecords : Payments.ledger.records s.desk.backing = changed :=
    Ledger.records_save_self
      (fun q hq => Session.restores (Payments.plain_settleFirst hc hplain q hq)) hs
  have hnone : (Payments.settleFirst id .paid changed).1 = none :=
    Payments.settleFirst_settled hc (by decide)
  have hagain := confirms_confirmPayment o id s
  rcases h : (confirmPayment o id).run s with ⟨r, s'⟩
  rw [h] at hagain
  cases hagain with
  | confirmed hc' =>
    rw [hrecords] at hc'
    rw [hc'] at hnone
    cases hnone
  | failed | refused | half => simp

theorem filter_isAccess_opening (e : Effect) : e.opening.filter Occurrence.isAccess = [] := by
  rw [Effect.opening, List.filter_cons_of_neg (by simp [Occurrence.isAccess]),
    filter_isAccess_calls]

/-- The accesses of an effect that begins and ends with hook calls are those in between. -/
theorem filter_isAccess_between (e : Effect) (w : List Occurrence) (c : HookCall) :
    (e.opening ++ w ++ [Occurrence.hook c]).filter Occurrence.isAccess =
      w.filter Occurrence.isAccess := by
  rw [List.filter_append, List.filter_append, filter_isAccess_opening, filter_isAccess_hook,
    List.filter_nil, List.nil_append, List.append_nil]

/-- A step that reports that it could not open a session. -/
theorem step_failed {o : Observer σ} {e : Effect} {amountCents : UInt64} {metadata : Members}
    {s : Stage σ} {f : Failure} (he : e.entry? = some (.session amountCents metadata))
    (h : ((perform o e).run (pause s).2).1 = .error f) :
    Untouched f s (step o e s).2 ∨ Halfway (Payments.ledger.records s.desk.backing ++
      [Upshot.opened amountCents metadata s.desk.now (s.desk.ids.uuid s.desk.ids.drawn)])
      f s (step o e s).2 := by
  obtain ⟨s₁, hperform, hr₁, hb₁⟩ := perform_eq_enter o e s
  have hopen := opens_openSession o amountCents (Effect.plain_metadata he).sorted_eq s₁
  rw [step_eq_closing]
  rw [hperform, he, enter] at h ⊢
  rcases hdesk : (atDesk (openSession amountCents metadata)).run s₁ with ⟨r, s₂⟩
  rw [hdesk] at hopen
  cases hopen with
  | unopened hw hr hb =>
    rw [run_bind_of_error hdesk] at h ⊢
    cases h
    obtain ⟨s', hclose, hr', hb'⟩ := (hr₁.trans hr).shortfall e f
    rw [hclose]
    refine .inl ⟨hb'.trans (hb.trans hb₁), _, hw, ?_⟩
    rw [hr'.accesses, filter_isAccess_between, filter_isAccess_failed hw]
  | orphaned hw hr hb =>
    rw [run_bind_of_error hdesk] at h ⊢
    cases h
    obtain ⟨s', hclose, hr', hb'⟩ := (hr₁.trans hr).shortfall e f
    rw [hclose]
    rw [hr₁.now, hr₁.uuid, hr₁.drawn, hb₁] at hb
    cases hb with
    | one hs =>
      refine .inr (halfway_of_saves (hb' ▸ hs) hw hr' ?_)
      rw [filter_isAccess_between, List.filter_append, filter_isAccess_rewritten,
        filter_isAccess_failed hw]
  | opened hs hr hb hc =>
    obtain ⟨s', htell, -, -⟩ := tell_reaches o (e.receipt _) s₂
    rw [run_bind_of_ok hdesk, run_lift_of_eq htell] at h
    cases h

theorem steps_append (o : Observer σ) (es rest : List Effect) (s : Stage σ) :
    steps o (es ++ rest) s = steps o rest (steps o es s).2 := by
  induction es generalizing s with
  | nil => rfl
  | cons e es ih => simp only [List.cons_append, steps, bind_apply, ih]

/-- Carrying out a plan passes through each of its effects. -/
theorem execute_eq_of_effects (o : Observer σ) {plan : Plan} {before after : List Effect}
    {e : Effect} (h : plan.effects = before ++ e :: after) (s : Stage σ) :
    execute o plan s =
      (plan, (steps o after (step o e (execute o { plan with effects := before } s).2).2).2) := by
  rcases plan with ⟨success, effects, _ | explanation⟩
  all_goals
    obtain rfl : effects = before ++ e :: after := h
    simp only [execute, bind_apply, steps_append, steps]
    rfl

theorem confirmPayment_failed_halfway :
    let session : Session := ⟨"p", 100, "usd", .pending, 0, none⟩
    let slots := [(Payments.ledger.key, Session.format.encode [session])]
    let fault : Fault := ⟨.save, some Chain.ledger.key, 0, some 1, .internal "disk full"⟩
    let s : Stage Unit := ⟨⟨.memory slots, [fault], 0, .countingFrom 1, []⟩, ()⟩
    let r := (confirmPayment .silent "p").run s
    r.1.map Option.isSome = .error (.internal "disk full") ∧
      r.2.desk.backing.load Payments.ledger.key ≠ s.desk.backing.load Payments.ledger.key ∧
      ((confirmPayment .silent "p").run r.2).1.map Option.isSome = .ok false := by
  decide +kernel

/-- What an operation on both stores leaves when it reports a failure: either an access to the
payments failed and nothing was saved, or an access to the chain failed, the chain is as it was,
and the session that was settled or opened has been saved.  A step reports a failure when
`perform` returns one. -/
theorem failures_across_stores (o : Observer σ) (s : Stage σ) :
    (∀ (id : String) (f : Failure) (s' : Stage σ),
      (confirmPayment o id).run s = (.error f, s') →
        Untouched f s s' ∨ ∃ p changed,
          Payments.settleFirst id .paid (Payments.ledger.records s.desk.backing) =
            (some p, changed) ∧ Halfway changed f s s' ∧
          ((∀ q ∈ Payments.ledger.records s.desk.backing,
              ∀ m ∈ q.metadata, (Value.object m).Exact) →
            ∀ s'' : Stage σ, s''.desk.backing = s'.desk.backing →
              ∀ q, ((confirmPayment o id).run s'').1 ≠ .ok (some q))) ∧
    (∀ (plan : Plan) (before after : List Effect) (e : Effect) (amountCents : UInt64)
      (metadata : Members), plan.effects = before ++ e :: after →
      e.entry? = some (.session amountCents metadata) →
        let s₀ := (execute o { plan with effects := before } s).2
        let s₁ := (step o e s₀).2
        execute o plan s = (plan, (steps o after s₁).2) ∧
          ∀ f, ((perform o e).run (pause s₀).2).1 = .error f →
            Untouched f s₀ s₁ ∨ Halfway (Payments.ledger.records s₀.desk.backing ++ [{
              id := "mockpay_" ++ Numeral.intText s₀.desk.now.toInt ++ "_" ++
                s₀.desk.ids.uuid s₀.desk.ids.drawn
              amountCents := amountCents
              currency := "usd"
              status := .pending
              createdAt := s₀.desk.now
              metadata := some metadata }]) f s₀ s₁) := by
  refine ⟨fun id f s' h => ?_, fun plan before after e amountCents metadata h he => ?_⟩
  · rcases confirmPayment_failed h with hu | ⟨p, changed, hc, hh, hs⟩
    · exact .inl hu
    · refine .inr ⟨p, changed, hc, hh, fun hexact s'' hb q => ?_⟩
      exact not_confirmed_of_saves hexact hc (hb ▸ hs) q
  · exact ⟨execute_eq_of_effects o h s, fun f hf => step_failed he hf⟩

theorem eq_error_of_map {α β : Type} {x : Except Failure α} {g : α → β} {f : Failure}
    (h : x.map g = .error f) : x = .error f := by
  cases x with
  | error e => exact congrArg Except.error (Except.error.inj h)
  | ok a => cases h

theorem failures_across_stores_full_disk :
    let session : Session := ⟨"p", 100, "usd", .pending, 0, none⟩
    let slots := [(Payments.ledger.key, Session.format.encode [session])]
    let f : Failure := .internal "disk full"
    let s : Stage Unit :=
      ⟨⟨.memory slots, [⟨.save, some Chain.ledger.key, 0, none, f⟩], 0, .countingFrom 1, []⟩, ()⟩
    let e : Effect := .runPayment 250 none
    let plan : Plan := ⟨true, [e], none⟩
    let s₁ := (step .silent e s).2
    (∃ s', (confirmPayment .silent "p").run s = (.error f, s') ∧
      (Untouched f s s' ∨ ∃ changed, Halfway changed f s s') ∧
      Payments.ledger.records s'.desk.backing = [⟨"p", 100, "usd", .paid, 0, none⟩]) ∧
    ((perform .silent e).run (pause s).2).1 = .error f ∧ execute .silent plan s = (plan, s₁) ∧
      (Untouched f s s₁ ∨ ∃ changed, Halfway changed f s s₁) ∧
      Payments.ledger.records s₁.desk.backing = [session,
        ⟨"mockpay_0_00000000000040008000000000000001", 250, "usd", .pending, 0,
          some [("reason", .null)]⟩] := by
  intro session slots f s e plan s₁
  have hconfirm : ((confirmPayment .silent "p").run s).1 = .error f := by
    have h : ((confirmPayment .silent "p").run s).1.map Option.isSome = .error f := by
      decide +kernel
    exact eq_error_of_map h
  have hperform : ((perform .silent e).run (pause s).2).1 = .error f := by
    decide +kernel
  have hpaid : Payments.ledger.records ((confirmPayment .silent "p").run s).2.desk.backing =
      [⟨"p", 100, "usd", .paid, 0, none⟩] := by
    decide +kernel
  have hopened : Payments.ledger.records (step .silent e s).2.desk.backing = [session,
      ⟨"mockpay_0_00000000000040008000000000000001", 250, "usd", .pending, 0,
        some [("reason", .null)]⟩] := by
    decide +kernel
  -- From here on the stage matters only through the failures and what they leave.
  clear_value s
  obtain ⟨hid, heffect⟩ := failures_across_stores .silent s
  obtain ⟨hexecute, hstep⟩ := heffect plan [] [] e 250 (paymentMetadata none) rfl rfl
  refine ⟨⟨_, Prod.ext hconfirm rfl, ?_, hpaid⟩, hperform, hexecute, ?_, hopened⟩
  · rcases hid "p" f _ (Prod.ext hconfirm rfl) with hu | ⟨_, changed, _, hh, _⟩
    · exact .inl hu
    · exact .inr ⟨changed, hh⟩
  · rcases hstep f hperform with hu | hh
    · exact .inl hu
    · exact .inr ⟨_, hh⟩

end Runner

end PageScript
