import PageScript.Proofs.Runner.Observed
import PageScript.Proofs.Store.Holding

/-!
# What carrying out an effect comes to

An effect is announced to the observer and asks for at most one entry in the stores: an event, or
a session with the event of its opening (`Effect.entry?`, `Runner.perform_eq`).  What comes of it
is an `Upshot`: the sessions and events that were saved and what was taken down on the way.  There
are six ways it can go (`Upshot.Of`), and in the three in which something is missing the last
thing taken down is the log call that says so.

`Runner.step_cases` is all the later modules know of a step.
-/

namespace PageScript

open Json

variable {σ : Type}

namespace Runner

/-- From the stage `s` the stage `s'` was reached without the clock being moved; `n` ids were drawn
and `w` was taken down as the observer heard it. -/
structure Reaches (o : Observer σ) (s : Stage σ) (n : ℕ) (w : List Occurrence) (s' : Stage σ) :
    Prop where
  now : s'.desk.now = s.desk.now
  uuid : s'.desk.ids.uuid = s.desk.ids.uuid
  drawn : s'.desk.ids.drawn = s.desk.ids.drawn + n
  record : s'.desk.record = s.desk.record ++ (o.hear w s.observer).1
  observer : s'.observer = (o.hear w s.observer).2

theorem Reaches.refl (o : Observer σ) (s : Stage σ) : Reaches o s 0 [] s :=
  ⟨rfl, rfl, rfl, (List.append_nil _).symm, rfl⟩

theorem Reaches.trans {o : Observer σ} {s s' s'' : Stage σ} {n m : ℕ} {w v : List Occurrence}
    (h : Reaches o s n w s') (h' : Reaches o s' m v s'') :
    Reaches o s (n + m) (w ++ v) s'' where
  now := h'.now.trans h.now
  uuid := h'.uuid.trans h.uuid
  drawn := by rw [h'.drawn, h.drawn, Nat.add_assoc]
  record := by
    rw [h'.record, h.record, h.observer, Observer.hear_append, List.append_assoc]
  observer := by rw [h'.observer, h.observer, Observer.hear_append]

theorem pause_reaches (o : Observer σ) (s : Stage σ) :
    ∃ s', pause s = ((), s') ∧ Reaches o s 0 [.pause] s' ∧ s'.desk.backing = s.desk.backing :=
  ⟨_, rfl, ⟨rfl, rfl, rfl, rfl, rfl⟩, rfl⟩

theorem tell_reaches (o : Observer σ) (c : HookCall) (s : Stage σ) :
    ∃ s', tell o c s = ((), s') ∧ Reaches o s 0 [.hook c] s' ∧
      s'.desk.backing = s.desk.backing := by
  have hhear : o.hear [.hook c] s.observer =
      ((o.answer c s.observer).1.map .hook, (o.answer c s.observer).2) := by
    simp [Observer.hear]
  refine ⟨_, tell_eq o c s.desk s.observer, ⟨rfl, rfl, rfl, ?_, ?_⟩, rfl⟩
  · rw [hhear]
  · rw [hhear]

/-- What is done at the desk is not heard. -/
theorem atDesk_reaches {α : Type} (o : Observer σ) {x : Action α} {s : Stage σ}
    {r : Except Failure α} {n : ℕ} {w : List Occurrence} {q : Desk} (hx : x.run s.desk = (r, q))
    (hq : s.desk.Reaches n w q) (hw : Unheard w) :
    (atDesk x).run s = (r, ⟨q, s.observer⟩) ∧ Reaches o s n w ⟨q, s.observer⟩ := by
  refine ⟨atDesk_of_eq hx, hq.now, hq.uuid, hq.drawn, ?_, ?_⟩
  · rw [Observer.hear_of_unheard o hw, hq.record]
  · rw [Observer.hear_of_unheard o hw]

end Runner

/-- What an effect asks to be recorded. -/
inductive Entry where
  | event (kind : String) (payload : Value)
  | session (amountCents : UInt64) (metadata : Members)

namespace Effect

def entry? : Effect → Option Entry
  | .log message => some (.event "log" (.object [("message", .string message)]))
  | .addWatermark page text =>
    some (.event "watermark" (.object [("page", .nat page.toNat), ("text", .string text)]))
  | .highlightText text => some (.event "highlight" (.object [("text", .string text)]))
  | .mintNft metadata => some (.event "mint" (.object metadata))
  | .lockPages pages price =>
    some (.session (price.getD 500)
      [("pages", .array (pages.map fun p => .nat p.toNat)), ("reason", .string "lockPages")])
  | .runPayment price reason =>
    some (.session price [("reason", (reason.map Value.string).getD .null)])
  | .unknown _ => none

/-- The metadata of a session are read back as they are written. -/
theorem plain_metadata {e : Effect} {amountCents : UInt64} {metadata : Members}
    (h : e.entry? = some (.session amountCents metadata)) :
    (Value.object metadata).Plain 124 := by
  cases e with
  | lockPages pages price =>
    cases h
    have hpages : (Value.array (pages.map fun p => .nat p.toNat)).Plain 123 :=
      Value.plain_array (List.forall_mem_map.2 fun p _ => Value.plain_uint32 _ p)
    have hlt : "pages" < "reason" := by decide
    exact Value.plain_object (List.pairwise_pair.2 hlt) (by simp [Value.plain_string, hpages])
  | runPayment price reason =>
    cases h
    have hreason : Value.Plain 123 ((reason.map Value.string).getD .null) := by
      cases reason with
      | none => exact Value.plain_null _
      | some reason => exact Value.plain_string _ reason
    exact Value.plain_object (by simp [Members.Ascending]) (by simp [hreason])
  | log | addWatermark | highlightText | mintNft | unknown => cases h

/-- The hook call that announces an effect. -/
def announcement? : Effect → Option HookCall
  | .log message => some (.log message)
  | .addWatermark page text => some (.watermark page text)
  | .highlightText text => some (.highlight text)
  | .mintNft metadata => some (.mintNft metadata)
  | .lockPages pages price => some (.lockPages pages price)
  | .runPayment _ _ => none
  | .unknown op => some (.log ("Unknown effect: " ++ op))

/-- The log call for an opened session. -/
def receipt : Effect → Session → HookCall
  | .runPayment _ _, s => .log ("Mock payment created " ++ s.id)
  | _, s => .log ("Created mock payment session " ++ s.id ++ " for unlocking pages.")

/-- The log call for an effect that could not be recorded. -/
def shortfall (e : Effect) (f : Failure) : HookCall :=
  .log ("Failed to record " ++ e.kind ++ ": " ++ f.message)

/-- What is taken down before an effect is recorded. -/
def opening (e : Effect) : List Occurrence :=
  .pause :: e.announcement?.toList.map .hook

end Effect

namespace Runner

def announce (o : Observer σ) : Option HookCall → StateM (Stage σ) Unit
  | none => pure ()
  | some c => tell o c

def enter (o : Observer σ) (e : Effect) :
    Option Entry → ExceptT Failure (StateM (Stage σ)) Unit
  | none => pure ()
  | some (.event kind payload) => discard <| atDesk <| Chain.push kind payload
  | some (.session amountCents metadata) => do
    let session ← atDesk <| openSession amountCents metadata
    tell o (e.receipt session)

theorem perform_eq (o : Observer σ) (e : Effect) :
    perform o e = (do announce o e.announcement?; enter o e e.entry?) := by
  cases e <;> rfl

end Runner

/-- What comes of an effect. -/
structure Upshot where
  sessions : List Session
  events : List Event
  /-- How many ids were drawn. -/
  drawn : ℕ
  trace : List Occurrence

namespace Upshot

/-- The session that an effect opens with its first id. -/
def opened (amountCents : UInt64) (metadata : Members) (now : Int64) (uuid : String) :
    Session where
  id := "mockpay_" ++ Numeral.intText now.toInt ++ "_" ++ uuid
  amountCents := amountCents
  currency := "usd"
  status := .pending
  createdAt := now
  metadata := some metadata

/-- A session with these metadata, as it was when it was opened. -/
def createdPayload (s : Session) (metadata : Members) : Value :=
  .object [("amountCents", .nat s.amountCents.toNat), ("createdAt", .int s.createdAt.toInt),
    ("currency", .string s.currency), ("id", .string s.id), ("metadata", .object metadata),
    ("status", .string "pending")]

/-- An event that an effect puts on the chain. -/
def recorded (kind : String) (payload : Value) (now : Int64) (uuid : String) : Event where
  id := "ev_" ++ Numeral.intText now.toInt ++ "_" ++ uuid
  kind := kind
  payload := payload
  timestamp := now

/-- The event of the opening of a session. -/
def created (s : Session) (metadata : Members) (now : Int64) (uuid : String) : Event :=
  recorded "payment_session_created" (createdPayload s metadata) now uuid

/-- What is taken down when a slot is read and saved. -/
def rewritten (key : String) : List Occurrence :=
  [.loaded key, .saved key]

/-- How an effect may go at the time `now` when the next ids are `uuid n` and those after it. -/
inductive Of (now : Int64) (uuid : ℕ → String) (n : ℕ) (e : Effect) : Upshot → Prop
  | nothing (h : e.entry? = none) : Of now uuid n e ⟨[], [], 0, e.opening⟩
  | recorded {kind : String} {payload : Value} (h : e.entry? = some (.event kind payload)) :
    Of now uuid n e ⟨[], [recorded kind payload now (uuid n)], 1,
      e.opening ++ rewritten Chain.ledger.key⟩
  | lost {kind : String} {payload : Value} {f : Failure} {w : List Occurrence}
    (h : e.entry? = some (.event kind payload)) (hw : Ledger.Failed Chain.ledger.key f w) :
    Of now uuid n e ⟨[], [], 1, e.opening ++ w ++ [.hook (e.shortfall f)]⟩
  | opened {amountCents : UInt64} {metadata : Members} {s : Session}
    (h : e.entry? = some (.session amountCents metadata))
    (hs : s = opened amountCents metadata now (uuid n)) :
    Of now uuid n e ⟨[s], [created s metadata now (uuid (n + 1))], 2,
      e.opening ++ rewritten Payments.ledger.key ++ rewritten Chain.ledger.key ++
        [.hook (e.receipt s)]⟩
  | orphaned {amountCents : UInt64} {metadata : Members} {s : Session} {f : Failure}
    {w : List Occurrence} (h : e.entry? = some (.session amountCents metadata))
    (hs : s = opened amountCents metadata now (uuid n))
    (hw : Ledger.Failed Chain.ledger.key f w) :
    Of now uuid n e ⟨[s], [], 2,
      e.opening ++ rewritten Payments.ledger.key ++ w ++ [.hook (e.shortfall f)]⟩
  | unopened {amountCents : UInt64} {metadata : Members} {f : Failure} {w : List Occurrence}
    (h : e.entry? = some (.session amountCents metadata))
    (hw : Ledger.Failed Payments.ledger.key f w) :
    Of now uuid n e ⟨[], [], 1, e.opening ++ w ++ [.hook (e.shortfall f)]⟩

end Upshot

namespace Runner

/-- From the stage `s` the stage `s'` was reached, and this is what came of it. -/
structure Comes (o : Observer σ) (s : Stage σ) (out : Upshot) (s' : Stage σ) : Prop where
  reaches : Reaches o s out.drawn out.trace s'
  saved : ∃ b, Payments.ledger.Extends s.desk.backing out.sessions b ∧
    Chain.ledger.Extends b out.events s'.desk.backing

/-- How a step ends: with a log call if the effect could not be recorded. -/
def closing (o : Observer σ) (e : Effect) : Except Failure Unit × Stage σ → Unit × Stage σ
  | (.ok (), s) => ((), s)
  | (.error f, s) => tell o (e.shortfall f) s

theorem announce_reaches (o : Observer σ) (c : Option HookCall) (s : Stage σ) :
    ∃ s', announce o c s = ((), s') ∧ Reaches o s 0 (c.toList.map .hook) s' ∧
      s'.desk.backing = s.desk.backing := by
  cases c with
  | none => exact ⟨s, rfl, .refl o s, rfl⟩
  | some c => exact tell_reaches o c s

theorem step_eq_closing (o : Observer σ) (e : Effect) (s : Stage σ) :
    step o e s = closing o e ((perform o e).run (pause s).2) := by
  rw [step, bind_apply, bind_apply]
  rcases (perform o e).run (pause s).2 with ⟨_ | _, _⟩ <;> rfl

/-- An effect is entered after its announcement. -/
theorem perform_eq_enter (o : Observer σ) (e : Effect) (s : Stage σ) :
    ∃ s', (perform o e).run (pause s).2 = (enter o e e.entry?).run s' ∧
      Reaches o s 0 e.opening s' ∧ s'.desk.backing = s.desk.backing := by
  obtain ⟨s₁, hp, hr₁, hb₁⟩ := pause_reaches o s
  obtain ⟨s₂, ha, hr₂, hb₂⟩ := announce_reaches o e.announcement? s₁
  refine ⟨s₂, ?_, hr₁.trans hr₂, hb₂.trans hb₁⟩
  rw [hp, perform_eq]
  exact run_bind_of_ok (run_lift_of_eq ha) _

theorem step_eq (o : Observer σ) (e : Effect) (s : Stage σ) :
    ∃ s', step o e s = closing o e ((enter o e e.entry?).run s') ∧
      Reaches o s 0 e.opening s' ∧ s'.desk.backing = s.desk.backing := by
  obtain ⟨s', h, hr, hb⟩ := perform_eq_enter o e s
  exact ⟨s', by rw [step_eq_closing, h], hr, hb⟩

theorem unheard_of_failed {key : String} {f : Failure} {w : List Occurrence}
    (h : Ledger.Failed key f w) : Unheard w := by
  cases h <;> simp [Unheard]

theorem unheard_rewritten (key : String) : Unheard (Upshot.rewritten key) := by
  simp [Unheard, Upshot.rewritten]

/-- How recording an event from the stage `s` on may end. -/
inductive Pushes (o : Observer σ) (kind : String) (payload : Value) (s : Stage σ) :
    Except Failure Unit × Stage σ → Prop
  | failed {f : Failure} {w : List Occurrence} {s' : Stage σ}
    (hw : Ledger.Failed Chain.ledger.key f w) (hr : Reaches o s 1 w s')
    (hb : s'.desk.backing = s.desk.backing) : Pushes o kind payload s (.error f, s')
  | added {s' : Stage σ} (hr : Reaches o s 1 (Upshot.rewritten Chain.ledger.key) s')
    (hb : Chain.ledger.Extends s.desk.backing
      [Upshot.recorded kind payload s.desk.now (s.desk.ids.uuid s.desk.ids.drawn)]
      s'.desk.backing) :
    Pushes o kind payload s (.ok (), s')

theorem pushes_push (o : Observer σ) (kind : String) (payload : Value) (s : Stage σ) :
    Pushes o kind payload s ((discard <| atDesk <| Chain.push kind payload).run s) := by
  have hpush := Chain.adds_push kind payload s.desk
  rcases hp : (Chain.push kind payload).run s.desk with ⟨r, q⟩
  rw [hp] at hpush
  cases hpush with
  | failed hw hq hb =>
    obtain ⟨hdesk, hr⟩ := atDesk_reaches o hp hq (unheard_of_failed hw)
    rw [run_discard_of_error hdesk]
    exact .failed hw hr hb
  | added hq hb =>
    obtain ⟨hdesk, hr⟩ := atDesk_reaches o hp hq (unheard_rewritten _)
    rw [run_discard_of_ok hdesk]
    exact .added hr (.one hb)

/-- How opening a session from the stage `s` on may end. -/
inductive Opens (o : Observer σ) (amountCents : UInt64) (metadata : Members) (s : Stage σ) :
    Except Failure Session × Stage σ → Prop
  | unopened {f : Failure} {w : List Occurrence} {s' : Stage σ}
    (hw : Ledger.Failed Payments.ledger.key f w) (hr : Reaches o s 1 w s')
    (hb : s'.desk.backing = s.desk.backing) : Opens o amountCents metadata s (.error f, s')
  | orphaned {f : Failure} {w : List Occurrence} {s' : Stage σ}
    (hw : Ledger.Failed Chain.ledger.key f w)
    (hr : Reaches o s 2 (Upshot.rewritten Payments.ledger.key ++ w) s')
    (hb : Payments.ledger.Extends s.desk.backing
      [Upshot.opened amountCents metadata s.desk.now (s.desk.ids.uuid s.desk.ids.drawn)]
      s'.desk.backing) :
    Opens o amountCents metadata s (.error f, s')
  | opened {p : Session} {b : Backing} {s' : Stage σ}
    (hs : p = Upshot.opened amountCents metadata s.desk.now (s.desk.ids.uuid s.desk.ids.drawn))
    (hr : Reaches o s 2
      (Upshot.rewritten Payments.ledger.key ++ Upshot.rewritten Chain.ledger.key) s')
    (hp : Payments.ledger.Extends s.desk.backing [p] b)
    (hc : Chain.ledger.Extends b
      [Upshot.created p metadata s.desk.now (s.desk.ids.uuid (s.desk.ids.drawn + 1))]
      s'.desk.backing) :
    Opens o amountCents metadata s (.ok p, s')

theorem opens_openSession (o : Observer σ) (amountCents : UInt64) {metadata : Members}
    (hm : (Value.object metadata).sorted = .object metadata) (s : Stage σ) :
    Opens o amountCents metadata s ((atDesk (openSession amountCents metadata)).run s) := by
  have hcreate := Payments.adds_create amountCents (some Payments.defaultCurrency)
    (some metadata) s.desk
  rcases hc : (Payments.create amountCents (some Payments.defaultCurrency)
    (some metadata)).run s.desk with ⟨r, q⟩
  rw [hc] at hcreate
  cases hcreate with
  | failed hw hq hb =>
    obtain ⟨hdesk, hr⟩ := atDesk_reaches o (run_bind_of_error hc _) hq (unheard_of_failed hw)
    rw [openSession, hdesk]
    exact .unopened hw hr hb
  | added hq hb =>
    set p := Payments.nextSession amountCents (some Payments.defaultCurrency) (some metadata)
      s.desk
    have hpush := Chain.adds_push "payment_session_created" p.payload q
    have hevent : Chain.nextEvent "payment_session_created" p.payload q =
        Upshot.created p metadata s.desk.now (s.desk.ids.uuid (s.desk.ids.drawn + 1)) := by
      rw [Chain.nextEvent, hq.now, hq.uuid, hq.drawn, Session.payload_of_pending rfl rfl hm]
      rfl
    rw [hevent] at hpush
    have hrest : (openSession amountCents metadata).run s.desk =
        (do discard <| Chain.push "payment_session_created" p.payload; return p :
          Action Session).run q := run_bind_of_ok hc _
    rcases hp : (Chain.push "payment_session_created" p.payload).run q with ⟨r', q'⟩
    rw [hp] at hpush
    cases hpush with
    | failed hw hq' hb' =>
      have hrun := hrest.trans (run_bind_of_error (run_discard_of_error hp) _)
      obtain ⟨hdesk, hr⟩ := atDesk_reaches o hrun (hq.trans hq')
        ((unheard_rewritten _).append (unheard_of_failed hw))
      rw [hdesk]
      refine .orphaned hw hr ?_
      rw [hb']
      exact .one hb
    | added hq' hb' =>
      have hrun := hrest.trans (run_bind_of_ok (run_discard_of_ok hp) _)
      obtain ⟨hdesk, hr⟩ := atDesk_reaches o hrun (hq.trans hq')
        ((unheard_rewritten _).append (unheard_rewritten _))
      rw [hdesk]
      exact .opened rfl hr (.one hb) (.one hb')

theorem Reaches.shortfall {o : Observer σ} {s s' : Stage σ} {n : ℕ} {w : List Occurrence}
    (h : Reaches o s n w s') (e : Effect) (f : Failure) :
    ∃ s'', closing o e (.error f, s') = ((), s'') ∧
      Reaches o s n (w ++ [.hook (e.shortfall f)]) s'' ∧ s''.desk.backing = s'.desk.backing := by
  obtain ⟨s'', ht, hr, hb⟩ := tell_reaches o (e.shortfall f) s'
  exact ⟨s'', ht, h.trans hr, hb⟩

/-- A step that asks for an event records or loses it. -/
theorem step_event {o : Observer σ} {e : Effect} {kind : String} {payload : Value} {s : Stage σ}
    (he : e.entry? = some (.event kind payload)) :
    ∃ out s', step o e s = ((), s') ∧
      Upshot.Of s.desk.now s.desk.ids.uuid s.desk.ids.drawn e out ∧ Comes o s out s' := by
  obtain ⟨s₁, hstep, hr₁, hb₁⟩ := step_eq o e s
  have hpush := pushes_push o kind payload s₁
  rw [hstep, he, enter]
  rcases hdesk : (discard <| atDesk <| Chain.push kind payload).run s₁ with ⟨r, s₂⟩
  rw [hdesk] at hpush
  cases hpush with
  | failed hw hr hb =>
    obtain ⟨s', hclose, hr', hb'⟩ := (hr₁.trans hr).shortfall e _
    refine ⟨_, s', hclose, .lost he hw, ⟨hr', ?_⟩⟩
    rw [hb', hb, hb₁]
    exact ⟨_, .none, .none⟩
  | added hr hb =>
    rw [hr₁.now, hr₁.uuid, hr₁.drawn, hb₁] at hb
    exact ⟨_, s₂, rfl, .recorded he, ⟨hr₁.trans hr, _, .none, hb⟩⟩

/-- A step that asks for a session opens it, or saves the session alone, or nothing. -/
theorem step_session {o : Observer σ} {e : Effect} {amountCents : UInt64} {metadata : Members}
    {s : Stage σ} (he : e.entry? = some (.session amountCents metadata)) :
    ∃ out s', step o e s = ((), s') ∧
      Upshot.Of s.desk.now s.desk.ids.uuid s.desk.ids.drawn e out ∧ Comes o s out s' := by
  obtain ⟨s₁, hstep, hr₁, hb₁⟩ := step_eq o e s
  have hopen := opens_openSession o amountCents (Effect.plain_metadata he).sorted_eq s₁
  rw [hstep, he, enter]
  rcases hdesk : (atDesk (openSession amountCents metadata)).run s₁ with ⟨r, s₂⟩
  rw [hdesk] at hopen
  cases hopen with
  | unopened hw hr hb =>
    obtain ⟨s', hclose, hr', hb'⟩ := (hr₁.trans hr).shortfall e _
    refine ⟨_, s', by rw [run_bind_of_error hdesk, hclose], .unopened he hw, ⟨hr', ?_⟩⟩
    rw [hb', hb, hb₁]
    exact ⟨_, .none, .none⟩
  | orphaned hw hr hb =>
    obtain ⟨s', hclose, hr', hb'⟩ := (hr₁.trans hr).shortfall e _
    rw [← List.append_assoc] at hr'
    rw [hr₁.now, hr₁.uuid, hr₁.drawn, hb₁] at hb
    refine ⟨_, s', by rw [run_bind_of_error hdesk, hclose], .orphaned he rfl hw, ⟨hr', ?_⟩⟩
    rw [hb']
    exact ⟨_, hb, .none⟩
  | opened hs hr hb hc =>
    obtain ⟨s', htell, hr', hb'⟩ := tell_reaches o (e.receipt _) s₂
    rw [hr₁.now, hr₁.uuid, hr₁.drawn] at hs hc
    rw [hb₁] at hb
    have hreach := (hr₁.trans hr).trans hr'
    simp only [← List.append_assoc] at hreach
    refine ⟨_, s', ?_, .opened he hs, ⟨hreach, ?_⟩⟩
    · rw [run_bind_of_ok hdesk, run_lift_of_eq htell]
      rfl
    · rw [hb']
      exact ⟨_, hb, hc⟩

theorem step_cases (o : Observer σ) (e : Effect) (s : Stage σ) :
    ∃ out s', step o e s = ((), s') ∧
      Upshot.Of s.desk.now s.desk.ids.uuid s.desk.ids.drawn e out ∧ Comes o s out s' := by
  rcases he : e.entry? with _ | (⟨kind, payload⟩ | ⟨amountCents, metadata⟩)
  · obtain ⟨s', hstep, hr, hb⟩ := step_eq o e s
    rw [he] at hstep
    refine ⟨_, s', hstep, .nothing he, ⟨hr, ?_⟩⟩
    rw [hb]
    exact ⟨_, .none, .none⟩
  · exact step_event he
  · exact step_session he

end Runner

end PageScript
