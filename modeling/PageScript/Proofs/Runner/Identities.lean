import PageScript.Proofs.Runner.Operations
import PageScript.Proofs.Store.Issued

/-!
# No id is given out twice

`Runner.Gives` are the operations on both stores and of the runner, with the ids that they give to
new records; `Runner.GivesAll` are runs of them.  Every event and every session is made with the
next of the unique texts, whether it is then stored or not.  So what an operation makes of the
records (`Runner.Revises`) only adds ids that were issued by it (`Runner.Revises.adds`), and over an
operation as over a run the ids in both stores are renewed (`Runner.Turnover`).

It follows that no two records have the same id, and that no id that was given out is given to
another record, also when the records were removed in between or could not be saved
(`Runner.ids_unique`).  The time, which stands in an id too, may be any and is not needed for it.
-/

namespace PageScript

open Json

namespace Desk

def eventIds (d : Desk) : List String :=
  (Chain.ledger.records d.backing).map (·.id)

def sessionIds (d : Desk) : List String :=
  (Payments.ledger.records d.backing).map (·.id)

end Desk

namespace Upshot

variable {now : Int64} {uuid : ℕ → String} {n : ℕ}

/-- The records of an effect bear ids of their own. -/
theorem Of.issued {e : Effect} {out : Upshot} (h : Of now uuid n e out) :
    Issued Event.Ids uuid n (n + out.drawn) (out.events.map (·.id)) ∧
      Issued Session.Ids uuid n (n + out.drawn) (out.sessions.map (·.id)) := by
  cases h with
  | nothing | lost | unopened => exact ⟨.nil (Nat.le_add_right n _), .nil (Nat.le_add_right n _)⟩
  | recorded he => exact ⟨.event now le_rfl n.lt_succ_self, .nil n.le_succ⟩
  | opened he hs =>
    subst hs
    exact ⟨.event now n.le_succ n.succ.lt_succ_self,
      .session now le_rfl (Nat.lt_add_of_pos_right Nat.two_pos)⟩
  | orphaned he hs =>
    subst hs
    exact ⟨.nil (Nat.le_add_right n _), .session now le_rfl (Nat.lt_add_of_pos_right Nat.two_pos)⟩

theorem OfAll.issued {es : List Effect} {outs : List Upshot} (h : OfAll now uuid n es outs) :
    Issued Event.Ids uuid n (n + (outs.map (·.drawn)).sum)
        ((outs.flatMap (·.events)).map (·.id)) ∧
      Issued Session.Ids uuid n (n + (outs.map (·.drawn)).sum)
        ((outs.flatMap (·.sessions)).map (·.id)) := by
  induction h with
  | nil n => exact ⟨.nil le_rfl, .nil le_rfl⟩
  | cons hout _ ih =>
    obtain ⟨hevents, hsessions⟩ := hout.issued
    rw [List.map_cons, List.sum_cons, ← Nat.add_assoc, List.flatMap_cons, List.map_append,
      List.flatMap_cons, List.map_append]
    exact ⟨hevents.append ih.1, hsessions.append ih.2⟩

end Upshot

theorem Payments.map_id_settleFirst {id : String} {status : Status}
    {sessions changed : List Session} {p : Session}
    (h : settleFirst id status sessions = (some p, changed)) :
    changed.map (·.id) = sessions.map (·.id) := by
  obtain ⟨before, s, after, rfl, -, -, -, rfl, rfl⟩ := settleFirst_cases h
  rw [List.map_append, List.map_append, List.map_cons, List.map_cons]

namespace Runner

/-- What is made of the records adds ids that were issued in doing so. -/
theorem Revises.adds {now : Int64} {uuid : ℕ → String} {n k : ℕ} {events events' : List Event}
    {sessions sessions' : List Session}
    (h : Revises now uuid n events sessions k events' sessions') :
    ∃ pushed opened, events'.map (·.id) = events.map (·.id) ++ pushed ∧
      sessions'.map (·.id) = sessions.map (·.id) ++ opened ∧
      Issued Event.Ids uuid n (n + k) pushed ∧ Issued Session.Ids uuid n (n + k) opened := by
  cases h with
  | kept k =>
    exact ⟨[], [], (List.append_nil _).symm, (List.append_nil _).symm, .nil (n.le_add_right k),
      .nil (n.le_add_right k)⟩
  | carried hall => exact ⟨_, _, List.map_append, List.map_append, hall.issued.1, hall.issued.2⟩
  | @created s hs =>
    exact ⟨[], [s.id], (List.append_nil _).symm, List.map_append, .nil n.le_succ,
      hs ▸ .session s.createdAt le_rfl n.lt_succ_self⟩
  | settled k hc =>
    rw [Payments.map_id_settleFirst hc]
    exact ⟨[], [], (List.append_nil _).symm, (List.append_nil _).symm, .nil (n.le_add_right k),
      .nil (n.le_add_right k)⟩
  | confirmed hc =>
    rw [Payments.map_id_settleFirst hc]
    exact ⟨_, [], List.map_append, (List.append_nil _).symm, .event now le_rfl n.lt_succ_self,
      .nil n.le_succ⟩

/-- The ids at the desk `d'` after as many in either store as there were at the desk `d`. -/
def addedIds (d d' : Desk) : List String :=
  d'.eventIds.drop d.eventIds.length ++ d'.sessionIds.drop d.sessionIds.length

/-- The id of the record that was returned. -/
def returnedId {α : Type} (id : α → String) : Except Failure α → List String
  | .ok a => [id a]
  | .error _ => []

/-- An operation leads from the desk `d` to the desk `d'` and gave these ids to new records. -/
inductive Gives (d : Desk) : List String → Desk → Prop
  | operates {d' : Desk} (h : Operates d d') : Gives d (addedIds d d') d'
  | create {amountCents : UInt64} {currency : Option String} {metadata : Option Members}
    {r : Except Failure Session} {d' : Desk} (hm : ∀ m ∈ metadata, (Value.object m).Plain 120)
    (h : (Payments.create amountCents currency metadata).run d = (r, d')) :
    Gives d (returnedId (·.id) r) d'
  | push {kind : String} {payload : Value} {r : Except Failure Event} {d' : Desk}
    (hp : payload.Plain 120) (h : (Chain.push kind payload).run d = (r, d')) :
    Gives d (returnedId (·.id) r) d'
  | listEvents {r : Except Failure (List Event)} {d' : Desk} (h : Chain.list.run d = (r, d')) :
    Gives d [] d'
  | listSessions {r : Except Failure (List Session)} {d' : Desk}
    (h : Payments.list.run d = (r, d')) : Gives d [] d'
  | clearEvents {r : Except Failure Unit} {d' : Desk} (h : Chain.clear.run d = (r, d')) :
    Gives d [] d'
  | clearSessions {r : Except Failure Unit} {d' : Desk} (h : Payments.clear.run d = (r, d')) :
    Gives d [] d'

/-- Operations one after the other. -/
inductive GivesAll : Desk → List String → Desk → Prop
  | none (d : Desk) : GivesAll d [] d
  | next {d q d' : Desk} {ids rest : List String} (h : Gives d ids q) (hrest : GivesAll q rest d') :
    GivesAll d (ids ++ rest) d'

/-- From the desk `d` to the desk `d'` the ids in both stores were renewed, and those that were
given out were issued. -/
structure Turnover (d : Desk) (ids : List String) (d' : Desk) : Prop where
  uuid : d'.ids.uuid = d.ids.uuid
  holds : ∃ events sessions, d'.backing.Holds events sessions
  renewed_events :
    Renewed Event.Ids d.ids.uuid d.ids.drawn d'.ids.drawn d.eventIds d'.eventIds
  renewed_sessions :
    Renewed Session.Ids d.ids.uuid d.ids.drawn d'.ids.drawn d.sessionIds d'.sessionIds
  issued : Issued Set.univ d.ids.uuid d.ids.drawn d'.ids.drawn ids

section Turnover

variable {d q d' : Desk} {events events' : List Event} {sessions sessions' : List Session}
  {ids rest : List String} {k : ℕ}

theorem Turnover.trans (h : Turnover d ids q) (h' : Turnover q rest d') :
    Turnover d (ids ++ rest) d' := by
  have hevents := h'.renewed_events
  have hsessions := h'.renewed_sessions
  have hissued := h'.issued
  rw [h.uuid] at hevents hsessions hissued
  exact ⟨h'.uuid.trans h.uuid, h'.holds, h.renewed_events.trans hevents,
    h.renewed_sessions.trans hsessions, h.issued.append hissued⟩

/-- The ids are those of the records that the desks hold. -/
theorem turnover_of_leaves (h : d.backing.Holds events sessions)
    (hl : Leaves d k events' sessions' d')
    (hevents : Renewed Event.Ids d.ids.uuid d.ids.drawn (d.ids.drawn + k) (events.map (·.id))
      (events'.map (·.id)))
    (hsessions : Renewed Session.Ids d.ids.uuid d.ids.drawn (d.ids.drawn + k)
      (sessions.map (·.id)) (sessions'.map (·.id)))
    (hids : Issued Set.univ d.ids.uuid d.ids.drawn (d.ids.drawn + k) ids) : Turnover d ids d' := by
  rw [← hl.drawn] at hevents hsessions hids
  rw [← h.chain, ← hl.holds.chain] at hevents
  rw [← h.payments, ← hl.holds.payments] at hsessions
  exact ⟨hl.uuid, ⟨events', sessions', hl.holds⟩, hevents, hsessions, hids⟩

/-- An operation that leaves both slots as they were. -/
theorem turnover_of_backing_eq (h : d.backing.Holds events sessions)
    (huuid : d'.ids.uuid = d.ids.uuid) (hdrawn : d'.ids.drawn = d.ids.drawn + k)
    (hb : d'.backing = d.backing) : Turnover d [] d' :=
  turnover_of_leaves h ⟨huuid, hdrawn, hb ▸ h⟩ (.kept (Nat.le_add_right _ k) _)
    (.kept (Nat.le_add_right _ k) _) (.nil (Nat.le_add_right _ k))

theorem turnover_of_operates (h : d.backing.Holds events sessions) (ho : Operates d d') :
    Turnover d (addedIds d d') d' := by
  obtain ⟨k, events', sessions', hl, hrevises⟩ := ho.revised h
  obtain ⟨pushed, opened, hevents, hsessions, hpushed, hopened⟩ := hrevises.adds
  have hadded : addedIds d d' = pushed ++ opened := by
    simp only [addedIds, Desk.eventIds, Desk.sessionIds, h.chain, h.payments, hl.holds.chain,
      hl.holds.payments, hevents, hsessions, List.drop_left]
  refine turnover_of_leaves h hl ?_ ?_ ?_
  · rw [hevents]
    exact .added hpushed _
  · rw [hsessions]
    exact .added hopened _
  · rw [hadded]
    exact hpushed.union hopened

theorem turnover_of_create (h : d.backing.Holds events sessions) {amountCents : UInt64}
    {currency : Option String} {metadata : Option Members} {r : Except Failure Session}
    (hm : ∀ m ∈ metadata, (Value.object m).Plain 120)
    (hr : (Payments.create amountCents currency metadata).run d = (r, d')) :
    Turnover d (returnedId (·.id) r) d' := by
  have hc := Payments.adds_create amountCents currency metadata d
  rw [hr] at hc
  cases hc with
  | failed hw hq hb => exact turnover_of_backing_eq h hq.uuid hq.drawn hb
  | added hq hb =>
    have hplain : (Payments.nextSession amountCents currency metadata d).Plain 125 :=
      fun m hmem => (hm m hmem).mono (by omega)
    have hb := h.extends_payments (List.forall_mem_singleton.2 hplain) (.one hb)
    have hid : Issued Session.Ids d.ids.uuid d.ids.drawn (d.ids.drawn + 1)
        [(Payments.nextSession amountCents currency metadata d).id] :=
      .session d.now le_rfl (Nat.lt_succ_self _)
    refine turnover_of_leaves h ⟨hq.uuid, hq.drawn, hb⟩ (.kept (Nat.le_succ _) _) ?_
      (hid.mono (Set.subset_univ _))
    rw [List.map_append]
    exact .added hid _

theorem turnover_of_push (h : d.backing.Holds events sessions) {kind : String} {payload : Value}
    {r : Except Failure Event} (hp : payload.Plain 120)
    (hr : (Chain.push kind payload).run d = (r, d')) : Turnover d (returnedId (·.id) r) d' := by
  have hc := Chain.adds_push kind payload d
  rw [hr] at hc
  cases hc with
  | failed hw hq hb => exact turnover_of_backing_eq h hq.uuid hq.drawn hb
  | added hq hb =>
    have hplain : (Chain.nextEvent kind payload d).Plain 125 := hp.mono (by omega)
    have hb := h.extends_chain (List.forall_mem_singleton.2 hplain) (.one hb)
    have hid : Issued Event.Ids d.ids.uuid d.ids.drawn (d.ids.drawn + 1)
        [(Chain.nextEvent kind payload d).id] := .event d.now le_rfl (Nat.lt_succ_self _)
    refine turnover_of_leaves h ⟨hq.uuid, hq.drawn, hb⟩ ?_ (.kept (Nat.le_succ _) _)
      (hid.mono (Set.subset_univ _))
    rw [List.map_append]
    exact .added hid _

/-- Listing leaves the slots as they were, however it ends. -/
theorem turnover_of_read {α β : Type} {l : Ledger α} {f : List α → Action β}
    (hf : ∀ as d, ((f as).run d).2 = d) (h : d.backing.Holds events sessions)
    {r : Except Failure β} (hr : (do f (← l.read)).run d = (r, d')) : Turnover d [] d' := by
  rcases l.read_cases d with ⟨e, q, hread, hq, hb⟩ | ⟨q, hread, hq, hb⟩
  · rw [run_bind_of_error hread] at hr
    cases hr
    exact turnover_of_backing_eq h hq.uuid hq.drawn hb
  · rw [run_bind_of_ok hread] at hr
    have hq' := hf (l.records d.backing) q
    rw [hr] at hq'
    subst hq'
    exact turnover_of_backing_eq h hq.uuid hq.drawn hb

theorem turnover_of_clearEvents (h : d.backing.Holds events sessions) {r : Except Failure Unit}
    (hr : Chain.clear.run d = (r, d')) : Turnover d [] d' := by
  have hr : Chain.ledger.clear.run d = (r, d') := hr
  rcases Chain.ledger.clear_cases d with ⟨f, q, hclear, hq, hb⟩ | ⟨q, hclear, hq, hb⟩
  · cases hclear.symm.trans hr
    exact turnover_of_backing_eq h hq.uuid hq.drawn hb
  · cases hclear.symm.trans hr
    have hb := h.saves_chain (List.forall_mem_nil _) hb
    exact turnover_of_leaves h ⟨hq.uuid, hq.drawn, hb⟩ (.cleared le_rfl _) (.kept le_rfl _)
      (.nil le_rfl)

theorem turnover_of_clearSessions (h : d.backing.Holds events sessions) {r : Except Failure Unit}
    (hr : Payments.clear.run d = (r, d')) : Turnover d [] d' := by
  have hr : Payments.ledger.clear.run d = (r, d') := hr
  rcases Payments.ledger.clear_cases d with ⟨f, q, hclear, hq, hb⟩ | ⟨q, hclear, hq, hb⟩
  · cases hclear.symm.trans hr
    exact turnover_of_backing_eq h hq.uuid hq.drawn hb
  · cases hclear.symm.trans hr
    have hb := h.saves_payments (List.forall_mem_nil _) hb
    exact turnover_of_leaves h ⟨hq.uuid, hq.drawn, hb⟩ (.kept le_rfl _) (.cleared le_rfl _)
      (.nil le_rfl)

theorem Gives.turnover (hg : Gives d ids d') (h : d.backing.Holds events sessions) :
    Turnover d ids d' := by
  cases hg with
  | operates ho => exact turnover_of_operates h ho
  | create hm hr => exact turnover_of_create h hm hr
  | push hp hr => exact turnover_of_push h hp hr
  | listEvents hr => exact turnover_of_read (fun _ _ => rfl) h hr
  | listSessions hr => exact turnover_of_read (fun _ _ => rfl) h hr
  | clearEvents hr => exact turnover_of_clearEvents h hr
  | clearSessions hr => exact turnover_of_clearSessions h hr

theorem GivesAll.turnover (hg : GivesAll d ids d') (h : d.backing.Holds events sessions) :
    Turnover d ids d' := by
  induction hg generalizing events sessions with
  | none d => exact turnover_of_backing_eq h rfl (Nat.add_zero _).symm rfl
  | next hgives _ ih =>
    have ht := hgives.turnover h
    obtain ⟨events', sessions', h'⟩ := ht.holds
    exact ht.trans (ih h')

/-- What there is after a start from a fresh desk was all issued since. -/
theorem Turnover.issued_ids (h : Turnover d ids d') (h₀ : Fresh d) :
    Issued Set.univ d.ids.uuid d.ids.drawn d'.ids.drawn (d'.eventIds ++ d'.sessionIds) := by
  have hevents := h.renewed_events
  have hsessions := h.renewed_sessions
  rw [Desk.eventIds, h₀.consistent.holds.chain] at hevents
  rw [Desk.sessionIds, h₀.consistent.holds.payments] at hsessions
  exact hevents.issued.union hsessions.issued

end Turnover

/-- That at the desk `d'` every record has an id of its own, and that none of the ids that were
given out `earlier`, until the desk `d`, and `later`, from there on, was given out again. -/
structure UniqueIds (d : Desk) (earlier later : List String) (d' : Desk) : Prop where
  events : d'.eventIds.Nodup
  sessions : d'.sessionIds.Nodup
  apart : d'.eventIds.Disjoint d'.sessionIds
  once : (earlier ++ later).Nodup
  /-- What is given out is not the id of a record that is there. -/
  unused : ∀ id ∈ later, id ∉ d.eventIds ∧ id ∉ d.sessionIds
  /-- What was given out is the id only of a record that stayed. -/
  never_again : ∀ id ∈ earlier,
    (id ∈ d'.eventIds → id ∈ d.eventIds) ∧ (id ∈ d'.sessionIds → id ∈ d.sessionIds)

/-- Whatever is done on the stores from a fresh desk on, whichever accesses fail and however the
clock moves: ids are unique and never given out again, if no two of the unique texts drawn are the
same. -/
theorem ids_unique {d₀ d d' : Desk} {earlier later : List String} (h₀ : Fresh d₀)
    (hearlier : GivesAll d₀ earlier d) (hlater : GivesAll d later d')
    (hinj : Set.InjOn d'.ids.uuid (Set.Iio d'.ids.drawn)) : UniqueIds d earlier later d' := by
  have h := hearlier.turnover h₀.consistent.holds
  obtain ⟨_, _, hholds⟩ := h.holds
  have h' := hlater.turnover hholds
  have hall := h.trans h'
  have hunion := hall.issued_ids h₀
  rw [hall.uuid] at hinj
  obtain ⟨hevents, hsessions, hapart⟩ := List.nodup_append'.1 (hunion.nodup hinj)
  have hrenewed := h'.renewed_events
  have hrenewed' := h'.renewed_sessions
  have hlast := h'.issued
  rw [h.uuid] at hrenewed hrenewed' hlast
  refine ⟨hevents, hsessions, hapart, hall.issued.nodup hinj, fun id hid => ?_,
    fun id hid => ⟨?_, ?_⟩⟩
  · have hdisjoint := (h.issued_ids h₀).disjoint hlast hinj
    exact ⟨fun hmem => hdisjoint (List.mem_append_left _ hmem) hid,
      fun hmem => hdisjoint (List.mem_append_right _ hmem) hid⟩
  · exact hrenewed.mem_of_issued h.issued hinj hid
  · exact hrenewed'.mem_of_issued h.issued hinj hid

theorem ids_unique_set_back :
    let d₀ : Desk := ⟨.memory [], [], 7, .countingFrom 1, []⟩
    let id := "ev_7_00000000000040008000000000000001"
    let id' := "ev_-3_00000000000040008000000000000002"
    Fresh d₀ ∧ ∃ d d', GivesAll d₀ [id] d ∧ GivesAll d [id'] d' ∧
      Set.InjOn d'.ids.uuid (Set.Iio d'.ids.drawn) ∧ UniqueIds d [id] [id'] d' ∧
      d.eventIds = [id] ∧ d'.eventIds = [id'] := by
  intro d₀ id id'
  have h₀ : Fresh d₀ := ⟨rfl, rfl, rfl⟩
  have hplain : (Value.null).Plain 120 := Value.plain_null _
  let push : Action Event := Chain.push "page" .null
  let e : Event := .make "page" .null 7 (Uuid.ofNat 1)
  let e' : Event := .make "page" .null (-3) (Uuid.ofNat 2)
  have hid : e.id = id := by decide +kernel
  have hid' : e'.id = id' := by decide +kernel
  let d := (push.run d₀).2
  have hearlier : GivesAll d₀ [id] d := hid ▸ .next (.push (r := .ok e) hplain rfl) (.none d)
  -- The event is removed, and the clock set back, before the next one is pushed.
  let d₁ := (Chain.clear.run d).2
  let d' := (push.run { d₁ with now := -3 }).2
  have hclock : GivesAll { d₁ with now := -3 } [id'] d' :=
    hid' ▸ .next (.push (r := .ok e') hplain rfl) (.none d')
  have hlater : GivesAll d [id'] d' :=
    .next (.clearEvents (r := .ok ()) rfl) (.next (.operates (.clock (-3))) hclock)
  have hinj : Set.InjOn d'.ids.uuid (Set.Iio d'.ids.drawn) := by
    have hne : Uuid.ofNat 1 ≠ Uuid.ofNat 2 := by decide +kernel
    have hdrawn : d'.ids.drawn = 2 := rfl
    have huuid : d'.ids.uuid = d₀.ids.uuid := rfl
    rw [hdrawn, huuid]
    intro m hm n hn h
    have hm : m < 2 := hm
    have hn : n < 2 := hn
    interval_cases m <;> interval_cases n
    · rfl
    · exact absurd h hne
    · exact absurd h.symm hne
    · rfl
  exact ⟨h₀, d, d', hearlier, hlater, hinj, ids_unique h₀ hearlier hlater hinj,
    by decide +kernel, by decide +kernel⟩

end Runner

end PageScript
