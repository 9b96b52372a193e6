import PageScript.Proofs.Runner.Deeds
import PageScript.Proofs.Store.Calls

/-!
# The lives of payment sessions

`Runs` are deeds done one after the other, with the clock and the faults changed at any time in
between.  What each deed preserves, a run preserves: the sessions stay in the order in which they
were made, each as it was but for its status, and an id that was settled once is spent, also after
all sessions were removed (`Deed.Runs.once`).

What confirming or failing a session comes to at a desk that a run has reached is `Settles`.
-/

namespace PageScript

open Json

namespace Deed

variable {d d' : Desk} {c : Deed} {log : List Deed}

/-- From the desk `d` to the desk `d'` these deeds were done. -/
inductive Runs : Desk → List Deed → Desk → Prop
  | none (d : Desk) : Runs d [] d
  | next {c : Deed} {log : List Deed} {d q d' : Desk} (h : Does d c q) (hrest : Runs q log d') :
    Runs d (c :: log) d'

/-! ### What one deed preserves -/

namespace Does

theorem books (h : Does d c d') (hb : Payments.Books d) : Payments.Books d' := by
  rcases h.cases hb with ht | hc
  · exact hb.advances ht.advances
  · exact .cleared hc.sessions

theorem uuid (h : Does d c d') (hb : Payments.Books d) : d'.ids.uuid = d.ids.uuid := by
  rcases h.cases hb with ht | hc
  · exact ht.advances.uuid
  · exact hc.uuid

theorem drawn (h : Does d c d') (hb : Payments.Books d) : d.ids.drawn ≤ d'.ids.drawn := by
  rcases h.cases hb with ht | hc
  · exact ht.advances.drawn
  · exact hc.drawn.ge

theorem advances (h : Does d c d') (hb : Payments.Books d) (hc : ¬ c.Clears) :
    Payments.Advances d d' := by
  rcases h.cases hb with ht | hcleared
  · exact ht.advances
  · exact absurd hcleared.clears hc

/-- A spent id stays spent, and is not settled. -/
theorem spent (h : Does d c d') (hb : Payments.Books d)
    (hinj : Set.InjOn d.ids.uuid (Set.Iio d'.ids.drawn)) {id : String}
    (hs : Payments.Spent d id) : Payments.Spent d' id ∧ c.settled? ≠ some id := by
  rcases h.cases hb with ht | hc
  · refine ⟨hs.advances ht.advances hinj, fun hid => ?_⟩
    obtain ⟨⟨s, hmem, hsid, hpending⟩, -⟩ := ht.settled id hid
    exact hs.settled s hmem hsid hpending
  · refine ⟨hs.cleared hc.uuid hc.drawn.ge hc.sessions, ?_⟩
    rw [hc.clears]
    nofun

/-- An id that is settled is spent. -/
theorem spends (h : Does d c d') (hb : Payments.Books d)
    (hinj : Set.InjOn d.ids.uuid (Set.Iio d'.ids.drawn)) {id : String}
    (hid : c.settled? = some id) : Payments.Spent d' id := by
  rcases h.cases hb with ht | hc
  · obtain ⟨-, s, hmem, rfl, hstatus⟩ := ht.settled id hid
    have hmade := (h.books hb).made
    have huuid := h.uuid hb
    obtain ⟨i, -, hi, hsid⟩ := hmade.exists_of_mem hmem
    refine ⟨⟨i, hi, s.createdAt, hsid⟩, fun r hr hrid => ?_⟩
    -- no other session has the id of the one that is settled now
    obtain rfl := List.inj_on_of_nodup_map (hmade.nodup (huuid ▸ hinj)) hr hmem hrid
    exact hstatus
  · rw [hc.clears] at hid
    cases hid

end Does

/-! ### What a run preserves -/

namespace Runs

theorem books (h : Runs d log d') (hb : Payments.Books d) : Payments.Books d' := by
  induction h with
  | none d => exact hb
  | next hdeed _ ih => exact ih (hdeed.books hb)

theorem uuid (h : Runs d log d') (hb : Payments.Books d) : d'.ids.uuid = d.ids.uuid := by
  induction h with
  | none d => rfl
  | next hdeed _ ih => exact (ih (hdeed.books hb)).trans (hdeed.uuid hb)

theorem drawn (h : Runs d log d') (hb : Payments.Books d) : d.ids.drawn ≤ d'.ids.drawn := by
  induction h with
  | none d => exact le_rfl
  | next hdeed _ ih => exact (hdeed.drawn hb).trans (ih (hdeed.books hb))

theorem advances (h : Runs d log d') (hb : Payments.Books d) (hc : ∀ c ∈ log, ¬ c.Clears) :
    Payments.Advances d d' := by
  induction h with
  | none d => exact .refl d
  | next hdeed _ ih =>
    obtain ⟨hfirst, hrest⟩ := List.forall_mem_cons.1 hc
    exact (hdeed.advances hb hfirst).trans (ih (hdeed.books hb) hrest)

/-- Once an id is spent, no deed settles it. -/
theorem settled?_ne (h : Runs d log d') (hb : Payments.Books d)
    (hinj : Set.InjOn d.ids.uuid (Set.Iio d'.ids.drawn)) {id : String}
    (hs : Payments.Spent d id) : ∀ c ∈ log, c.settled? ≠ some id := by
  induction h with
  | none d => exact List.forall_mem_nil _
  | @next c log d q d' hdeed hrun ih =>
    have hbooks := hdeed.books hb
    have hsub := Set.Iio_subset_Iio (hrun.drawn hbooks)
    obtain ⟨hspent, hne⟩ := hdeed.spent hb (hinj.mono hsub) hs
    exact List.forall_mem_cons.2 ⟨hne, ih hbooks (hdeed.uuid hb ▸ hinj) hspent⟩

/-- No two deeds settle the same id. -/
theorem once (h : Runs d log d') (hb : Payments.Books d)
    (hinj : Set.InjOn d.ids.uuid (Set.Iio d'.ids.drawn)) :
    log.Pairwise fun c c' => ∀ id, c.settled? = some id → c'.settled? ≠ some id := by
  induction h with
  | none d => exact .nil
  | @next c log d q d' hdeed hrun ih =>
    have hbooks := hdeed.books hb
    have hsub := Set.Iio_subset_Iio (hrun.drawn hbooks)
    have hinj' : Set.InjOn q.ids.uuid (Set.Iio d'.ids.drawn) := hdeed.uuid hb ▸ hinj
    refine .cons (fun c' hc' id hid => ?_) (ih hbooks hinj')
    exact hrun.settled?_ne hbooks hinj' (hdeed.spends hb (hinj.mono hsub) hid) c' hc'

end Runs

end Deed

theorem Runner.Fresh.books {d : Desk} (h : Runner.Fresh d) : Payments.Books d := by
  refine .cleared ?_
  rw [Payments.sessions, Ledger.records, h.payments]
  rfl

/-! ### Settling at a desk -/

/-- An access was made to fail, or failed by itself. -/
def Occurrence.IsFailure : Occurrence → Prop
  | .loadFailed _ _ | .saveFailed _ _ => True
  | _ => False

/-- What was taken down from the desk `d` until the desk `d'` is `w`. -/
def Desk.Takes (d : Desk) (w : List Occurrence) (d' : Desk) : Prop :=
  d'.record = d.record ++ w

/-- What giving the status to the session with the id comes to. -/
structure Settles (d : Desk) (id : String) (status : Status)
    (r : Except Failure (Option Session)) (d' : Desk) : Prop where
  /-- A session is returned exactly when no access fails and the id is that of a pending one. -/
  answer : (∃ s, r = .ok (some s)) ↔
    (∃ w, d.Takes w d' ∧ ∀ o ∈ w, ¬ o.IsFailure) ∧
      ∃ p ∈ Payments.sessions d, p.id = id ∧ p.status = .pending
  /-- It is that session with the new status, and takes its place. -/
  settled : ∀ s, r = .ok (some s) → ∃ before p after,
    Payments.sessions d = before ++ p :: after ∧ p.id = id ∧ p.status = .pending ∧
      s = { p with status } ∧ Payments.sessions d' = before ++ s :: after
  /-- Otherwise no slot is changed. -/
  untouched : (∀ s, r ≠ .ok (some s)) → d'.backing = d.backing
  /-- When there is nothing to settle, nothing is saved, not even tried to. -/
  unsaved : r = .ok none → d.Takes [.loaded Payments.ledger.key] d'
  /-- In memory nothing fails that no fault is for. -/
  succeeds : ∀ slots, d.backing = .memory slots → Fault.Spare .load d.faults →
    Fault.Spare .save d.faults → ∃ s?, r = .ok s?

namespace Payments

theorem create_of_spare (amountCents : UInt64) (currency : Option String)
    (metadata : Option Members) {d : Desk} {slots : Table ByteArray}
    (hb : d.backing = .memory slots) (hload : Fault.Spare .load d.faults)
    (hsave : Fault.Spare .save d.faults) :
    ∃ q slots', (create amountCents currency metadata).run d =
        (.ok (nextSession amountCents currency metadata d), q) ∧
      q.backing = .memory slots' ∧ q.faults = d.faults := by
  have hm : newSession amountCents currency metadata d =
      (nextSession amountCents currency metadata d,
        { d with ids := { d.ids with drawn := d.ids.drawn + 1 } }) := rfl
  obtain ⟨q, h, hmemory, hfaults⟩ := ledger.make_of_spare hm rfl rfl hb hload hsave
  exact ⟨q, _, h, hmemory, hfaults⟩

/-- With different ids, a pending session is found. -/
theorem settleFirst_ne_none {id : String} {status : Status} {sessions : List Session}
    (hnodup : (sessions.map (·.id)).Nodup) {p : Session} (hp : p ∈ sessions) (hid : p.id = id)
    (hpending : p.status = .pending) : (settleFirst id status sessions).1 ≠ none := by
  obtain ⟨before, after, rfl⟩ := List.append_of_mem hp
  have hother := ne_id_of_nodup hnodup
  rw [hid] at hother
  rw [settleFirst_append (List.forall_mem_append.1 hother).1, settleFirst, if_pos hid]
  simp [Session.settle?, Session.isPending, hpending]

variable {d d' : Desk}

theorem update_of_spare {slots : Table ByteArray} (hslots : d.backing = .memory slots)
    (hload : Fault.Spare .load d.faults) (hsave : Fault.Spare .save d.faults) {id : String}
    {status : Status} {r : Except Failure (Option Session)}
    (h : (ledger.update (settleFirst id status)).run d = (r, d')) : ∃ s?, r = .ok s? := by
  obtain ⟨a, q, ha⟩ := ledger.succeeds_of_spare (c := .update (settleFirst id status)) hslots
    (fun _ => hload) (fun _ => hsave)
  rcases r with f | s?
  · have herror := run_bind_of_error h fun s? => pure (Answer.changed s? : Answer Session Session)
    cases herror.symm.trans ha
  · exact ⟨s?, rfl⟩

theorem settles_update (hb : Books d) (hinj : Set.InjOn d.ids.uuid (Set.Iio d.ids.drawn))
    {id : String} {status : Status} {r : Except Failure (Option Session)}
    (h : (ledger.update (settleFirst id status)).run d = (r, d')) : Settles d id status r d' := by
  have hspare : ∀ slots, d.backing = .memory slots → _ := fun _ hslots hload hsave =>
    update_of_spare hslots hload hsave h
  have hu := ledger.updates_update (settleFirst id status) d
  rw [h] at hu
  cases hu with
  | @failed f w q hw hq hbacking hc =>
    refine ⟨⟨nofun, ?_⟩, nofun, fun _ => hbacking, nofun, hspare⟩
    rintro ⟨⟨v, hv, hnone⟩, -⟩
    obtain rfl := List.append_cancel_left (hq.record.symm.trans hv)
    cases hw with
    | unread => exact absurd trivial (hnone (.loadFailed ledger.key f) (by simp))
    | unsaved => exact absurd trivial (hnone (.saveFailed ledger.key f) (by simp))
  | unchanged hc hq hbacking =>
    refine ⟨⟨nofun, ?_⟩, nofun, fun _ => hbacking, fun _ => hq.record, hspare⟩
    rintro ⟨-, p, hp, hid, hpending⟩
    exact absurd hc (settleFirst_ne_none (hb.made.nodup hinj) hp hid hpending)
  | @saved p changed q hc hq hs =>
    have hsessions := records_of_saves (plain_settleFirst hc hb.plain) hs
    obtain ⟨before, s, after, heq, -, hid, hpending, hp, hchanged⟩ := settleFirst_cases hc
    have heq : Payments.sessions d = before ++ s :: after := heq
    refine ⟨⟨fun _ => ⟨⟨_, hq.record, by simp [Occurrence.IsFailure]⟩, s, by simp [heq], hid,
      hpending⟩, fun _ => ⟨p, rfl⟩⟩, ?_, fun hne => absurd rfl (hne p), nofun, hspare⟩
    rintro _ ⟨⟩
    exact ⟨before, s, after, heq, hid, hpending, hp, hsessions.trans hchanged⟩

end Payments

/-- What the sessions go through while these deeds lead from the desk `d` to the desk `d'`. -/
structure Lifetimes (d : Desk) (log : List Deed) (d' : Desk) : Prop where
  /-- Sessions stay, each in its place and changed at most in its status, and others come after. -/
  kept : (∀ c ∈ log, ¬ c.Clears) → ∃ kept new, Payments.sessions d' = kept ++ new ∧
    List.Forall₂ Session.Ages (Payments.sessions d) kept
  /-- So does one that is created by the first of the deeds, pending and after the others. -/
  created : ∀ amountCents currency metadata s rest,
    log = .create amountCents currency metadata (.ok s) :: rest → (∀ c ∈ rest, ¬ c.Clears) →
      s = Payments.nextSession amountCents currency metadata d ∧
        ∃ before s' after, Payments.sessions d' = before ++ s' :: after ∧ s.Ages s' ∧
          List.Forall₂ Session.Ages (Payments.sessions d) before
  /-- No two of them have the same id. -/
  unique : ((Payments.sessions d').map (·.id)).Nodup
  /-- A session that a deed adds is pending. -/
  pending : ∀ c q, Deed.Does d' c q → ∀ s ∈ Payments.sessions q,
    (∀ p ∈ Payments.sessions d', p.id ≠ s.id) → s.status = .pending
  settles : ∀ id status r q, Deed.Does d' (.settle id status r) q → Settles d' id status r q
  /-- No two deeds settle the same id, not even when the sessions were removed in between. -/
  once : log.Pairwise fun c c' => ∀ id, c.settled? = some id → c'.settled? ≠ some id

/-- What becomes of a session that was created, once other deeds were done. -/
theorem Deed.Runs.created {d d' : Desk} {amountCents : UInt64} {currency : Option String}
    {metadata : Option Members} {s : Session} {rest : List Deed}
    (h : Runs d (.create amountCents currency metadata (.ok s) :: rest) d')
    (hb : Payments.Books d) (hc : ∀ c ∈ rest, ¬ c.Clears) :
    s = Payments.nextSession amountCents currency metadata d ∧
      ∃ before s' after, Payments.sessions d' = before ++ s' :: after ∧ s.Ages s' ∧
        List.Forall₂ Session.Ages (Payments.sessions d) before := by
  cases h with
  | @next _ _ _ q _ hdeed hrest =>
    have ha := hrest.advances (hdeed.books hb) hc
    cases hdeed with
    | create hm hrun =>
      obtain ⟨hs, hsessions⟩ := (adds_of_create hb hm hrun).2 s rfl
      obtain ⟨kept, new, heq, hages, -⟩ := ha.sessions
      rw [hsessions] at hages
      obtain ⟨before, last, rfl, hbefore, hlast⟩ :=
        Session.ages_append (List.forall₂_same.2 fun p _ => .refl p) hages
      cases hlast with
      | cons hs' hnil =>
        cases hnil
        exact ⟨hs, before, _, new, by rw [heq, List.append_assoc]; rfl, hs', hbefore⟩

/-- Sessions last, whatever is created, settled, run, confirmed, listed and removed from a fresh
desk on, whichever accesses fail, if no two of the unique ids drawn are the same. -/
theorem session_life_cycle {d₀ d d' : Desk} {earlier log : List Deed} (h₀ : Runner.Fresh d₀)
    (hearlier : Deed.Runs d₀ earlier d) (h : Deed.Runs d log d')
    (hinj : Set.InjOn d'.ids.uuid (Set.Iio d'.ids.drawn)) : Lifetimes d log d' := by
  have hb := hearlier.books h₀.books
  have hb' := h.books hb
  refine ⟨fun hc => ?_, fun _ _ _ _ _ hlog hc => ?_, hb'.made.nodup hinj, fun c q hdeed => ?_,
    fun id status r q hdeed => ?_, h.once hb (h.uuid hb ▸ hinj)⟩
  · obtain ⟨kept, new, heq, hages, -⟩ := (h.advances hb hc).sessions
    exact ⟨kept, new, heq, hages⟩
  · subst hlog
    exact h.created hb hc
  · rcases hdeed.cases hb' with ht | hcleared
    · exact ht.pending
    · rw [hcleared.sessions]
      exact List.forall_mem_nil _
  · cases hdeed with
    | confirm hrun | fail hrun => exact Payments.settles_update hb' hinj hrun

theorem session_life_cycle_created_and_paid :
    let d₀ : Desk := ⟨.memory [], [], 0, ⟨fun n => String.ofList (List.replicate n 'a'), 0⟩, []⟩
    let s : Session := ⟨"mockpay_0_", 250, "usd", .pending, 0, none⟩
    let paid : Session := ⟨"mockpay_0_", 250, "usd", .paid, 0, none⟩
    Runner.Fresh d₀ ∧ ∃ q q', (Payments.create 250 none none).run d₀ = (.ok s, q) ∧
      (Payments.confirm "mockpay_0_").run q = (.ok (some paid), q') ∧
        Payments.sessions q' = [paid] ∧ Lifetimes d₀
          [.create 250 none none (.ok s), .settle "mockpay_0_" .paid (.ok (some paid))] q' := by
  intro d₀ s paid
  have h₀ : Runner.Fresh d₀ := ⟨rfl, rfl, rfl⟩
  have hinj : Function.Injective d₀.ids.uuid := fun m n h => by
    simpa using congrArg List.length (String.ofList_injective h)
  have hnext : Payments.nextSession 250 none none d₀ = s := by
    have hid : "mockpay_" ++ Numeral.intText d₀.now.toInt ++ "_" ++ d₀.ids.uuid d₀.ids.drawn =
        "mockpay_0_" := by decide +kernel
    rw [Payments.nextSession, hid]
    rfl
  obtain ⟨q, slots, hcreate, hslots, hfaults⟩ := Payments.create_of_spare 250 none none
    (d := d₀) rfl (List.forall_mem_nil _) (List.forall_mem_nil _)
  rw [hnext] at hcreate
  have hm : ∀ m ∈ (none : Option Members), (Value.object m).Plain 120 := nofun
  have hsessions : Payments.sessions q = [s] :=
    ((Deed.adds_of_create h₀.books hm hcreate).2 s rfl).2
  rcases hconfirm : (Payments.confirm "mockpay_0_").run q with ⟨r, q'⟩
  have hdeed : Deed.Does q (.settle "mockpay_0_" .paid r) q' := .confirm hconfirm
  have hfirst : Deed.Runs d₀ [.create 250 none none (.ok s)] q :=
    .next (.create hm hcreate) (.none _)
  have hsettles := (session_life_cycle h₀ (.none d₀) hfirst
    (hfirst.uuid h₀.books ▸ hinj.injOn)).settles "mockpay_0_" .paid r q' hdeed
  obtain ⟨settled, rfl⟩ := hsettles.succeeds slots hslots (hfaults ▸ List.forall_mem_nil _)
    (hfaults ▸ List.forall_mem_nil _)
  rcases settled with _ | p
  · -- Without an answer only the payments were loaded, and the pending session was there.
    obtain ⟨p, hp⟩ := hsettles.answer.2 ⟨⟨_, hsettles.unsaved rfl, by simp [Occurrence.IsFailure]⟩,
      s, by simp [hsessions], rfl, rfl⟩
    cases hp
  · obtain ⟨before, s', after, heq, -, -, rfl, hafter⟩ := hsettles.settled p rfl
    rw [hsessions] at heq
    obtain ⟨rfl, rfl, rfl⟩ : before = [] ∧ s' = s ∧ after = [] := by
      simpa [List.append_eq_singleton_iff] using heq.symm
    have hruns : Deed.Runs d₀ [.create 250 none none (.ok s), .settle "mockpay_0_" .paid _] q' :=
      .next (.create hm hcreate) (.next hdeed (.none _))
    exact ⟨h₀, q, q', hcreate, hconfirm, hafter, session_life_cycle h₀ (.none d₀) hruns
      (hruns.uuid h₀.books ▸ hinj.injOn)⟩

end PageScript
