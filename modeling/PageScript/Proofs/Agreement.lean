import Mathlib.Data.Set.Function
import PageScript.Proofs.Runner.Confirming
import PageScript.Proofs.Runner.Mirrored

/-!
# Events and sessions that agree

`Agreement` says that a list of events and a list of sessions do not contradict each other.  It is
kept by whatever the operations append or change: a new session, an event of another kind, the
event of the opening of a session, a session settled, and the event of a confirmation right after
its session was settled.

Two sessions have different ids when they were made with different unique ids, whatever these look
like, since the time that stands before one has no underscore (`Session.uuid_of_idOf_eq`).
-/

namespace PageScript

open Json

namespace Numeral

theorem ne_underscore_of_mem_ofInt {n : ℤ} {c : Char} (h : c ∈ ofInt n) :
    decide (c ≠ '_') = true := by
  have hdigit {m : ℕ} (h : c ∈ digits m) : decide (c ≠ '_') = true := by
    have hd := isDigit_of_mem_digits m c h
    rw [decide_eq_true_eq]
    rintro rfl
    exact absurd hd (by decide)
  cases n with
  | ofNat m => exact hdigit h
  | negSucc m =>
    rcases List.mem_cons.1 h with rfl | h
    · decide
    · exact hdigit h

/-- What follows the first underscore after a number. -/
theorem dropWhile_ofInt (n : ℤ) (cs : List Char) :
    (ofInt n ++ ('_' :: cs)).dropWhile (· ≠ '_') = '_' :: cs := by
  rw [List.dropWhile_append_of_pos fun c hc => ne_underscore_of_mem_ofInt hc]
  rfl

theorem eq_of_intText_append {n n' : ℤ} {s s' : String}
    (h : intText n ++ ("_" ++ s) = intText n' ++ ("_" ++ s')) : s = s' := by
  have hl := congrArg String.toList h
  simp only [intText, String.toList_append, String.toList_ofList] at hl
  have hdrop := congrArg (List.dropWhile (· ≠ '_')) hl
  have hcons : '_' :: s.toList = '_' :: s'.toList :=
    (dropWhile_ofInt _ _).symm.trans (hdrop.trans (dropWhile_ofInt _ _))
  exact String.toList_inj.1 (List.cons.inj hcons).2

end Numeral

namespace Session

theorem uuid_of_idOf_eq {t t' : Int64} {u u' : String} (h : idOf t u = idOf t' u') : u = u' := by
  simp only [idOf, String.append_assoc, String.append_right_inj] at h
  exact Numeral.eq_of_intText_append h

end Session

/-- That `events` and `sessions` agree, the sessions having been made with the first `n` unique
ids. -/
structure Agreement (uuid : ℕ → String) (n : ℕ) (events : List Event) (sessions : List Session) :
    Prop where
  numbered : ∀ s ∈ sessions, ∃ i < n, s.id = Session.idOf s.createdAt (uuid i)
  nodup : (sessions.map (·.id)).Nodup
  created : ∀ e ∈ events, e.kind = "payment_session_created" →
    ∃ s ∈ sessions, ∃ m, s.metadata = some m ∧ e.payload = Upshot.createdPayload s m
  confirmed : ∀ e ∈ events, e.kind = "payment_confirmed" →
    ∃ s ∈ sessions, s.status = .paid ∧ e.payload = Runner.confirmedPayload s.id
  once : events.Pairwise fun e e' => e.kind = "payment_confirmed" →
    e'.kind = "payment_confirmed" → e.payload ≠ e'.payload

/-- No effect asks for an event of one of the two kinds that are about payments. -/
theorem Effect.kind_of_entry? {e : Effect} {kind : String} {payload : Value}
    (h : e.entry? = some (.event kind payload)) :
    kind ≠ "payment_session_created" ∧ kind ≠ "payment_confirmed" := by
  cases e with
  | log | addWatermark | highlightText | mintNft =>
    cases h
    decide
  | lockPages | runPayment | unknown => cases h

namespace Agreement

variable {uuid : ℕ → String} {n m : ℕ} {events : List Event} {sessions : List Session}

theorem empty (uuid : ℕ → String) (n : ℕ) : Agreement uuid n [] [] where
  numbered := List.forall_mem_nil _
  nodup := List.nodup_nil
  created := List.forall_mem_nil _
  confirmed := List.forall_mem_nil _
  once := List.Pairwise.nil

theorem mono (h : Agreement uuid n events sessions) (hle : n ≤ m) :
    Agreement uuid m events sessions where
  numbered s hs := by
    obtain ⟨i, hi, hid⟩ := h.numbered s hs
    exact ⟨i, hi.trans_le hle, hid⟩
  nodup := h.nodup
  created := h.created
  confirmed := h.confirmed
  once := h.once

/-- A session made with the next unique id. -/
theorem add_session (h : Agreement uuid n events sessions) {s : Session}
    (hs : s.id = Session.idOf s.createdAt (uuid n))
    (hinj : Set.InjOn uuid (Set.Iio (n + 1))) :
    Agreement uuid (n + 1) events (sessions ++ [s]) where
  numbered := by
    refine List.forall_mem_append.2 ⟨fun r hr => ?_, List.forall_mem_singleton.2 ⟨n, by omega, hs⟩⟩
    obtain ⟨i, hi, hid⟩ := h.numbered r hr
    exact ⟨i, by omega, hid⟩
  nodup := by
    rw [List.map_append, List.map_singleton, List.nodup_append]
    refine ⟨h.nodup, List.nodup_singleton _, fun id hid id' hid' heq => ?_⟩
    obtain ⟨r, hr, rfl⟩ := List.mem_map.1 hid
    obtain ⟨i, hi, hri⟩ := h.numbered r hr
    rw [List.mem_singleton.1 hid', hri, hs] at heq
    have hin : i = n := hinj (by simp; omega) (by simp) (Session.uuid_of_idOf_eq heq)
    omega
  created e he hk := by
    obtain ⟨r, hr, hm⟩ := h.created e he hk
    exact ⟨r, List.mem_append_left _ hr, hm⟩
  confirmed e he hk := by
    obtain ⟨r, hr, hp⟩ := h.confirmed e he hk
    exact ⟨r, List.mem_append_left _ hr, hp⟩
  once := h.once

theorem add_opened (h : Agreement uuid n events sessions) {s : Session} {amountCents : UInt64}
    {metadata : Members} {now : Int64}
    (hs : s = Upshot.opened amountCents metadata now (uuid n))
    (hinj : Set.InjOn uuid (Set.Iio (n + 1))) :
    Agreement uuid (n + 1) events (sessions ++ [s]) := by
  subst hs
  exact h.add_session rfl hinj

/-- An event that is not about payments. -/
theorem add_other (h : Agreement uuid n events sessions) {e : Event}
    (hcreated : e.kind ≠ "payment_session_created") (hconfirmed : e.kind ≠ "payment_confirmed") :
    Agreement uuid n (events ++ [e]) sessions where
  numbered := h.numbered
  nodup := h.nodup
  created := List.forall_mem_append.2 ⟨h.created, by simp [hcreated]⟩
  confirmed := List.forall_mem_append.2 ⟨h.confirmed, by simp [hconfirmed]⟩
  once := List.pairwise_append.2 ⟨h.once, List.pairwise_singleton _ _, by simp [hconfirmed]⟩

/-- The event of the opening of a session. -/
theorem add_created (h : Agreement uuid n events sessions) {s : Session} (hs : s ∈ sessions)
    {metadata : Members} (hm : s.metadata = some metadata) (now : Int64) (u : String) :
    Agreement uuid n (events ++ [Upshot.created s metadata now u]) sessions where
  numbered := h.numbered
  nodup := h.nodup
  created := List.forall_mem_append.2
    ⟨h.created, List.forall_mem_singleton.2 fun _ => ⟨s, hs, metadata, hm, rfl⟩⟩
  confirmed := by
    refine List.forall_mem_append.2 ⟨h.confirmed, List.forall_mem_singleton.2 fun hk => ?_⟩
    exact absurd hk (by simp [Upshot.created, Upshot.recorded])
  once := by
    refine List.pairwise_append.2 ⟨h.once, List.pairwise_singleton _ _, fun e _ e' he' _ hk => ?_⟩
    rw [List.mem_singleton.1 he'] at hk
    exact absurd hk (by simp [Upshot.created, Upshot.recorded])

/-- A session that is settled, as paid or as failed. -/
theorem settle (h : Agreement uuid n events sessions) {id : String} {status : Status}
    {p : Session} {changed : List Session}
    (hc : Payments.settleFirst id status sessions = (some p, changed)) :
    Agreement uuid n events changed := by
  obtain ⟨before, s, after, rfl, -, -, hpending, rfl, rfl⟩ := Payments.settleFirst_cases hc
  have hkept {r : Session} (hr : r ∈ before ++ s :: after) :
      r = s ∨ r ∈ before ++ { s with status } :: after := by
    simp only [List.mem_append, List.mem_cons] at hr ⊢
    tauto
  have hsettled : { s with status } ∈ before ++ { s with status } :: after := by simp
  refine ⟨?_, ?_, fun e he hk => ?_, fun e he hk => ?_, h.once⟩
  · have hnumbered := h.numbered
    rw [List.forall_mem_append, List.forall_mem_cons] at hnumbered ⊢
    exact hnumbered
  · simpa using h.nodup
  · obtain ⟨r, hr, hm⟩ := h.created e he hk
    rcases hkept hr with rfl | hr
    · exact ⟨_, hsettled, hm⟩
    · exact ⟨r, hr, hm⟩
  · obtain ⟨r, hr, hpaid, hp⟩ := h.confirmed e he hk
    rcases hkept hr with rfl | hr
    · rw [hpending] at hpaid
      cases hpaid
    · exact ⟨r, hr, hpaid, hp⟩

theorem confirmedPayload_injective {id id' : String}
    (h : Runner.confirmedPayload id = Runner.confirmedPayload id') : id = id' := by
  simpa [Runner.confirmedPayload] using h

/-- Among sessions with different ids, the only one with the id of a settled one was pending. -/
theorem pending_of_settleFirst {id : String} {status : Status} {p : Session}
    {changed : List Session} (hc : Payments.settleFirst id status sessions = (some p, changed))
    (hnodup : (sessions.map (·.id)).Nodup) {r : Session} (hr : r ∈ sessions) (hid : r.id = id) :
    r.status = .pending := by
  obtain ⟨before, s, after, rfl, -, hs, hpending, -, -⟩ := Payments.settleFirst_cases hc
  have hmem : s ∈ before ++ s :: after := by simp
  have heq : r = s := List.inj_on_of_nodup_map hnodup hr hmem (hid.trans hs.symm)
  rw [heq, hpending]

/-- A session that is settled as paid, and the event of its confirmation. -/
theorem confirm (h : Agreement uuid n events sessions) {id : String} {p : Session}
    {changed : List Session} (hc : Payments.settleFirst id .paid sessions = (some p, changed))
    (now : Int64) (u : String) :
    Agreement uuid n (events ++ [Runner.confirmation id now u]) changed := by
  have hsettled := h.settle hc
  obtain ⟨before, s, after, -, -, hid, -, hp, hchanged⟩ := Payments.settleFirst_cases hc
  have hmem : p ∈ changed := by simp [hchanged]
  refine ⟨hsettled.numbered, hsettled.nodup, ?_, ?_, ?_⟩
  · refine List.forall_mem_append.2
      ⟨hsettled.created, List.forall_mem_singleton.2 fun hk => ?_⟩
    exact absurd hk (by simp [Runner.confirmation, Upshot.recorded])
  · refine List.forall_mem_append.2
      ⟨hsettled.confirmed, List.forall_mem_singleton.2 fun _ => ⟨p, hmem, by rw [hp], ?_⟩⟩
    rw [hp, hid]
    rfl
  · refine List.pairwise_append.2 ⟨h.once, List.pairwise_singleton _ _, ?_⟩
    intro e he e' he' hk _ heq
    obtain ⟨r, hr, hpaid, hpayload⟩ := h.confirmed e he hk
    rw [List.mem_singleton.1 he', hpayload] at heq
    have hpending := pending_of_settleFirst hc h.nodup hr (confirmedPayload_injective heq)
    rw [hpaid] at hpending
    cases hpending

/-- What comes of an effect. -/
theorem upshot (h : Agreement uuid n events sessions) {now : Int64} {e : Effect} {out : Upshot}
    (ho : Upshot.Of now uuid n e out) (hinj : Set.InjOn uuid (Set.Iio (n + out.drawn))) :
    Agreement uuid (n + out.drawn) (events ++ out.events) (sessions ++ out.sessions) := by
  have hone : Set.Iio (n + 1) ⊆ Set.Iio (n + 2) := Set.Iio_subset_Iio (by omega)
  cases ho with
  | nothing => simpa using h
  | lost | unopened => simpa using h.mono (Nat.le_succ n)
  | recorded he =>
    obtain ⟨hcreated, hconfirmed⟩ := Effect.kind_of_entry? he
    simpa using (h.add_other hcreated hconfirmed).mono (Nat.le_succ n)
  | orphaned he hs =>
    simpa using (h.add_opened hs (hinj.mono hone)).mono (Nat.le_succ (n + 1))
  | opened he hs =>
    have hmetadata := congrArg Session.metadata hs
    have hadd := h.add_opened hs (hinj.mono hone)
    exact (hadd.add_created (by simp) hmetadata now _).mono (Nat.le_succ (n + 1))

/-- What comes of effects, one after the other. -/
theorem upshots (h : Agreement uuid n events sessions) {now : Int64} {es : List Effect}
    {outs : List Upshot} (ho : Upshot.OfAll now uuid n es outs)
    (hinj : Set.InjOn uuid (Set.Iio (n + (outs.map (·.drawn)).sum))) :
    Agreement uuid (n + (outs.map (·.drawn)).sum) (events ++ outs.flatMap (·.events))
      (sessions ++ outs.flatMap (·.sessions)) := by
  induction ho generalizing events sessions with
  | nil n => simpa using h
  | cons hout hrest ih =>
    rw [List.map_cons, List.sum_cons, ← Nat.add_assoc] at hinj ⊢
    have hfirst := h.upshot hout (hinj.mono (Set.Iio_subset_Iio (by omega)))
    simpa using ih hfirst hinj

end Agreement

end PageScript
