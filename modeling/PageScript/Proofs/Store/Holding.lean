import PageScript.Proofs.Store.Recording

/-!
# What the two stores hold

A new event and a new session are made of the time of the desk and the next id, and then appended
to their ledger, which fails or adds them (`Ledger.Adds`).

`Backing.Holds` says which events and sessions a backing holds, all of them such that they are
read back as they were written.  Every backing whose numbers are exact holds the records that can
be read from it (`Backing.holds_records`), and saving plain records in one ledger leaves a backing
that holds these and what the other ledger held before (`Backing.Holds.saves_chain`,
`Backing.Holds.saves_payments`).
-/

namespace PageScript

open Json

namespace Ledger

variable {α : Type}

/-- How making and appending the record `a` at the desk `d` may end. -/
inductive Adds (l : Ledger α) (a : α) (d : Desk) : Except Failure α × Desk → Prop
  | failed {f : Failure} {w : List Occurrence} {q : Desk} (hw : Failed l.key f w)
    (hq : d.Reaches 1 w q) (hb : q.backing = d.backing) : Adds l a d (.error f, q)
  | added {q : Desk} (hq : d.Reaches 1 [.loaded l.key, .saved l.key] q)
    (hb : l.Saves (l.records d.backing ++ [a]) d.backing q.backing) : Adds l a d (.ok a, q)

theorem adds_of_make {l : Ledger α} {make : StateM Desk α} {a : α} {d d' : Desk}
    (hm : make d = (a, d')) (hd : d.Reaches 1 [] d') (hb : d'.backing = d.backing) :
    l.Adds a d ((do let a ← make; l.append a; return a : Action α).run d) := by
  have happend := l.appends_append a d'
  rw [run_bind_of_ok (run_lift_of_eq hm)]
  rcases h : (l.append a).run d' with ⟨r, q⟩
  rw [h] at happend
  cases happend with
  | failed hw hq hb' =>
    rw [run_bind_of_error h]
    exact .failed hw (hd.trans hq) (hb'.trans hb)
  | saved hq hb' =>
    rw [run_bind_of_ok h]
    exact .added (hd.trans hq) (hb ▸ hb')

/-- The backing `b'` is left when records are appended, none or one, to those that can be read from
the backing `b`. -/
inductive Extends (l : Ledger α) (b : Backing) : List α → Backing → Prop
  | none : Extends l b [] b
  | one {a : α} {b' : Backing} (h : l.Saves (l.records b ++ [a]) b b') : Extends l b [a] b'

end Ledger

namespace Chain

/-- The event that the desk makes next. -/
def nextEvent (kind : String) (payload : Value) (d : Desk) : Event where
  id := "ev_" ++ Numeral.intText d.now.toInt ++ "_" ++ d.ids.uuid d.ids.drawn
  kind := kind
  payload := payload
  timestamp := d.now

theorem adds_push (kind : String) (payload : Value) (d : Desk) :
    ledger.Adds (nextEvent kind payload d) d ((push kind payload).run d) := by
  have hm : newEvent kind payload d = (nextEvent kind payload d,
      { d with ids := { d.ids with drawn := d.ids.drawn + 1 } }) := rfl
  exact Ledger.adds_of_make hm ⟨rfl, rfl, rfl, (List.append_nil _).symm⟩ rfl

/-- Events are read with their payload in order and not too deep. -/
theorem plain_records {b : Backing} (h : ∀ e ∈ ledger.records b, e.payload.Exact) :
    ∀ e ∈ ledger.records b, e.Plain 125 := by
  intro e he
  obtain ⟨o, ho⟩ := Ledger.exists_of_mem_records he
  exact Event.plain_of_read? ho (h e he)

end Chain

namespace Payments

/-- The session that the desk makes next. -/
def nextSession (amountCents : UInt64) (currency : Option String) (metadata : Option Members)
    (d : Desk) : Session where
  id := "mockpay_" ++ Numeral.intText d.now.toInt ++ "_" ++ d.ids.uuid d.ids.drawn
  amountCents := amountCents
  currency := currency.getD "usd"
  status := .pending
  createdAt := d.now
  metadata := metadata

theorem adds_create (amountCents : UInt64) (currency : Option String)
    (metadata : Option Members) (d : Desk) :
    ledger.Adds (nextSession amountCents currency metadata d) d
      ((create amountCents currency metadata).run d) := by
  have hm : newSession amountCents currency metadata d =
      (nextSession amountCents currency metadata d,
        { d with ids := { d.ids with drawn := d.ids.drawn + 1 } }) := rfl
  exact Ledger.adds_of_make hm ⟨rfl, rfl, rfl, (List.append_nil _).symm⟩ rfl

/-- Sessions are read with their metadata in order and not too deep. -/
theorem plain_records {b : Backing}
    (h : ∀ s ∈ ledger.records b, ∀ m ∈ s.metadata, (Value.object m).Exact) :
    ∀ s ∈ ledger.records b, s.Plain 125 := by
  intro s hs
  obtain ⟨o, ho⟩ := Ledger.exists_of_mem_records hs
  exact Session.plain_of_read? ho (h s hs)

end Payments

theorem isSlotName_chain : Backing.IsSlotName Chain.ledger.key := by decide

theorem isSlotName_payments : Backing.IsSlotName Payments.ledger.key := by decide

theorem chain_key_ne_payments_key : Chain.ledger.key ≠ Payments.ledger.key := by decide

namespace Backing

structure Holds (b : Backing) (events : List Event) (sessions : List Session) : Prop where
  chain : Chain.ledger.records b = events
  payments : Payments.ledger.records b = sessions
  plain_events : ∀ e ∈ events, e.Plain 125
  plain_sessions : ∀ s ∈ sessions, s.Plain 125

variable {b b' : Backing} {events : List Event} {sessions : List Session}

theorem holds_records (he : ∀ e ∈ Chain.ledger.records b, e.payload.Exact)
    (hs : ∀ s ∈ Payments.ledger.records b, ∀ m ∈ s.metadata, (Value.object m).Exact) :
    b.Holds (Chain.ledger.records b) (Payments.ledger.records b) where
  chain := rfl
  payments := rfl
  plain_events := Chain.plain_records he
  plain_sessions := Payments.plain_records hs

theorem Holds.saves_chain {events' : List Event} (h : b.Holds events sessions)
    (hp : ∀ e ∈ events', e.Plain 125) (hs : Chain.ledger.Saves events' b b') :
    b'.Holds events' sessions where
  chain := Ledger.records_save_self (fun e he => Event.restores (hp e he)) hs
  payments :=
    (Ledger.records_save_of_ne isSlotName_payments isSlotName_chain
      chain_key_ne_payments_key.symm hs).trans h.payments
  plain_events := hp
  plain_sessions := h.plain_sessions

theorem Holds.saves_payments {sessions' : List Session} (h : b.Holds events sessions)
    (hp : ∀ s ∈ sessions', s.Plain 125) (hs : Payments.ledger.Saves sessions' b b') :
    b'.Holds events sessions' where
  chain :=
    (Ledger.records_save_of_ne isSlotName_chain isSlotName_payments
      chain_key_ne_payments_key hs).trans h.chain
  payments :=
    Ledger.records_save_self (fun s hs => Session.restores (hp s hs)) hs
  plain_events := h.plain_events
  plain_sessions := hp

theorem Holds.extends_chain {new : List Event} (h : b.Holds events sessions)
    (hp : ∀ e ∈ new, e.Plain 125) (hx : Chain.ledger.Extends b new b') :
    b'.Holds (events ++ new) sessions := by
  cases hx with
  | none => rwa [List.append_nil]
  | one hs =>
    rw [h.chain] at hs
    exact h.saves_chain (List.forall_mem_append.2 ⟨h.plain_events, hp⟩) hs

theorem Holds.extends_payments {new : List Session} (h : b.Holds events sessions)
    (hp : ∀ s ∈ new, s.Plain 125) (hx : Payments.ledger.Extends b new b') :
    b'.Holds events (sessions ++ new) := by
  cases hx with
  | none => rwa [List.append_nil]
  | one hs =>
    rw [h.payments] at hs
    exact h.saves_payments (List.forall_mem_append.2 ⟨h.plain_sessions, hp⟩) hs

end Backing

end PageScript
