import PageScript.Proofs.Store.Calls
import PageScript.Proofs.Store.Related

/-!
# Listings

A listing has all records of a store, in descending order of time, and those of the same time in the
reverse of the order in which they are stored (`Ledger.Lists`).  A record that is appended gets its
place right before all that are not newer, and the others stay as they are listed
(`Ledger.inserts_newestFirst`), in whatever order the times of the stored records are.

That both stores list and add their records in this way is `listings_newest_first`.
-/

namespace PageScript

open Json

namespace Ledger

variable {α : Type}

/-- All records are listed, by descending time, and in reverse where the time is the same. -/
structure Lists (time : α → Int64) (records listing : List α) : Prop where
  perm : listing.Perm records
  descending : listing.Pairwise fun a b => time b ≤ time a
  reversed : ∀ t, listing.filter (time · = t) = (records.filter (time · = t)).reverse

/-- The record `a` was put between those that are newer and those that are not. -/
inductive Inserts (time : α → Int64) (a : α) : List α → List α → Prop
  | between {newer older : List α} (hnewer : ∀ b ∈ newer, time a < time b)
    (holder : ∀ b ∈ older, time b ≤ time a) :
    Inserts time a (newer ++ older) (newer ++ a :: older)

/-- What is on either side of the record that was put in. -/
theorem Inserts.eq_filter {time : α → Int64} {a : α} {listing listing' : List α}
    (h : Inserts time a listing listing') :
    listing' = listing.filter (time a < time ·) ++ a :: listing.filter (time · ≤ time a) := by
  cases h with
  | @between newer older hnewer holder =>
    have h₁ : newer.filter (time a < time ·) = newer :=
      List.filter_eq_self.2 (by simpa using hnewer)
    have h₂ : older.filter (time a < time ·) = [] :=
      List.filter_eq_nil_iff.2 (by simpa [Int64.not_lt] using holder)
    have h₃ : newer.filter (time · ≤ time a) = [] :=
      List.filter_eq_nil_iff.2 (by simpa [Int64.not_le] using hnewer)
    have h₄ : older.filter (time · ≤ time a) = older :=
      List.filter_eq_self.2 (by simpa using holder)
    rw [List.filter_append, List.filter_append, h₁, h₂, h₃, h₄, List.append_nil, List.nil_append]

section Order

variable (time : α → Int64)

theorem newer_trans (a b c : α) (hab : decide (time b ≤ time a) = true)
    (hbc : decide (time c ≤ time b) = true) : decide (time c ≤ time a) = true := by
  rw [decide_eq_true_eq] at hab hbc ⊢
  exact Int64.le_trans hbc hab

theorem newer_total (a b : α) : (decide (time b ≤ time a) || decide (time a ≤ time b)) = true := by
  simpa using Int64.le_total (time b) (time a)

theorem descending_newestFirst (records : List α) :
    (newestFirst time records).Pairwise fun a b => time b ≤ time a := by
  simpa [newestFirst] using
    List.pairwise_mergeSort (newer_trans time) (newer_total time) records.reverse

/-- Sorting does not move records of the same time past each other. -/
theorem filter_newestFirst (records : List α) (t : Int64) :
    (newestFirst time records).filter (time · = t) = (records.filter (time · = t)).reverse := by
  have hsame : (records.reverse.filter (time · = t)).Pairwise
      fun a b => decide (time b ≤ time a) = true := by
    refine List.pairwise_of_forall_mem_list fun a ha b hb => ?_
    simp only [List.mem_filter, decide_eq_true_eq] at ha hb ⊢
    rw [ha.2, hb.2]
    exact Int64.le_refl t
  have hsub := (List.sublist_mergeSort (newer_trans time) (newer_total time) hsame
    List.filter_sublist).filter (time · = t)
  simp only [List.filter_filter, Bool.and_self] at hsub
  have hlength := ((List.mergeSort_perm records.reverse
    fun a b => decide (time b ≤ time a)).filter (time · = t)).length_eq
  rw [← List.filter_reverse]
  exact (hsub.eq_of_length hlength.symm).symm

theorem lists_newestFirst (records : List α) :
    Lists time records (newestFirst time records) where
  perm := (List.mergeSort_perm _ _).trans (List.reverse_perm records)
  descending := descending_newestFirst time records
  reversed := filter_newestFirst time records

/-- A record that is appended gets its place, and the others keep theirs. -/
theorem inserts_newestFirst (records : List α) (a : α) :
    Inserts time a (newestFirst time records) (newestFirst time (records ++ [a])) := by
  obtain ⟨newer, older, hlonger, hlisting, hnewer⟩ :=
    List.mergeSort_cons (newer_trans time) (newer_total time) a records.reverse
  have hlonger : newestFirst time (records ++ [a]) = newer ++ a :: older := by
    rw [newestFirst, List.reverse_append]
    exact hlonger
  have hdescending := descending_newestFirst time (records ++ [a])
  rw [hlonger, List.pairwise_append, List.pairwise_cons] at hdescending
  obtain ⟨-, ⟨holder, -⟩, -⟩ := hdescending
  rw [hlonger, newestFirst, hlisting]
  refine .between (fun b hb => ?_) holder
  simpa using hnewer b hb

end Order

/-- In a slot that can be loaded, a record is added to those that were read from it. -/
theorem Adds.view {l : Ledger α} {a b : α} {d d' : Desk} {slot : Option ByteArray}
    (h : l.Adds a d (.ok b, d')) (hload : d.backing.load l.key = .ok slot)
    (hrestores : ∀ r ∈ l.view slot ++ [a], l.format.Restores 126 r) :
    b = a ∧ ∃ slot', d'.backing.load l.key = .ok slot' ∧ l.view slot' = l.view slot ++ [a] := by
  cases h with
  | added hq hs =>
    rw [records_of_load hload] at hs
    refine ⟨rfl, _, Backing.load_save_self hs, ?_⟩
    rw [Ledger.view, Format.decode?_encode l.format hrestores, Option.getD_some]

end Ledger

namespace Fault

/-- Asking the faults makes none of them one for other accesses. -/
theorem Spare.ask {access : Access} {faults : List Fault} (h : Spare access faults)
    (asked : Access) (key : String) : Spare access (Fault.ask asked key faults).2 := by
  induction faults with
  | nil => exact h
  | cons f rest ih =>
    obtain ⟨hf, hrest⟩ := List.forall_mem_cons.1 h
    rw [Fault.ask]
    split_ifs
    · exact List.forall_mem_cons.2 ⟨hf, ih hrest⟩
    · exact List.forall_mem_cons.2 ⟨hf, ih hrest⟩
    · exact List.forall_mem_cons.2 ⟨hf, hrest⟩

/-- No operation of a store puts a fault in the way. -/
theorem suits_spare (access : Access) (key : String) :
    Desk.Suits (Keeping fun d => Spare access d.faults) key := by
  refine Desk.suits_keeping (fun _ _ h => h) (fun d h => ?_) fun content d h => ?_
  · obtain ⟨o, hload⟩ := Desk.load_leaves key d
    rw [hload]
    exact h.ask .load key
  · obtain ⟨o, hsave | ⟨b, -, hsave⟩⟩ := Desk.save_leaves key content d <;> rw [hsave] <;>
      exact h.ask .save key

end Fault

section Desk

variable {α : Type} {d : Desk}

/-- At the desk `d` these records are listed. -/
def Desk.Lists (d : Desk) (list : Action (List α)) (time : α → Int64) (records : List α) : Prop :=
  ∃ listing q, list.run d = (.ok listing, q) ∧ Ledger.Lists time records listing

/-- A record that is added at the desk `d` bears the time of the desk and gets its place in the
listing. -/
def Desk.Inserts (d : Desk) (list : Action (List α)) (time : α → Int64) (add : Action α) : Prop :=
  ∀ a d', add.run d = (.ok a, d') → time a = d.now ∧ ∃ listing q listing' q',
    list.run d = (.ok listing, q) ∧ list.run d' = (.ok listing', q') ∧
      Ledger.Inserts time a listing listing'

namespace Ledger

variable {l : Ledger α} {time : α → Int64} {slot : Option ByteArray}

/-- Lists the records of a ledger, as both stores do. -/
def list (l : Ledger α) (time : α → Int64) : Action (List α) := do
  return newestFirst time (← l.read)

theorem list_of_spare (hload : d.backing.load l.key = .ok slot)
    (hfaults : Fault.Spare .load d.faults) :
    (l.list time).run d = (.ok (newestFirst time (l.view slot)), d.note (.loaded l.key)) := by
  rw [list, run_bind_of_ok (l.read_of_spare hload hfaults), records_of_load hload]
  rfl

theorem desk_lists (hload : d.backing.load l.key = .ok slot)
    (hfaults : Fault.Spare .load d.faults) : d.Lists (l.list time) time (l.view slot) :=
  ⟨_, _, list_of_spare hload hfaults, lists_newestFirst time _⟩

theorem desk_inserts {add : Action α} {a : α} (hload : d.backing.load l.key = .ok slot)
    (hfaults : Fault.Spare .load d.faults) (hadds : l.Adds a d (add.run d))
    (hkeeps : Respects (Keeping fun d => Fault.Spare .load d.faults) add.run)
    (htime : time a = d.now)
    (hrestores : ∀ r ∈ l.view slot ++ [a], l.format.Restores 126 r) :
    d.Inserts (l.list time) time add := by
  intro b d' hadd
  have hfaults' := respects_keeping.1 hkeeps d hfaults
  rw [hadd] at hadds hfaults'
  obtain ⟨rfl, slot', hload', hview⟩ := hadds.view hload hrestores
  refine ⟨htime, _, _, _, _, list_of_spare hload hfaults, list_of_spare hload' hfaults', ?_⟩
  rw [hview]
  exact inserts_newestFirst time _ b

end Ledger

end Desk

/-- Both stores list what can be read from their slots, the newest first, and put a new record in
its place, as long as no load is made to fail. -/
theorem listings_newest_first {d : Desk} (hfaults : Fault.Spare .load d.faults) :
    (∀ slot, d.backing.load Chain.ledger.key = .ok slot →
      d.Lists Chain.list (·.timestamp) (Chain.ledger.view slot) ∧
        ((∀ e ∈ Chain.ledger.view slot, e.payload.Exact) →
          ∀ kind payload, payload.Plain 120 →
            d.Inserts Chain.list (·.timestamp) (Chain.push kind payload))) ∧
      ∀ slot, d.backing.load Payments.ledger.key = .ok slot →
        d.Lists Payments.list (·.createdAt) (Payments.ledger.view slot) ∧
          ((∀ s ∈ Payments.ledger.view slot, ∀ m ∈ s.metadata, (Value.object m).Exact) →
            ∀ amountCents currency metadata, (∀ m ∈ metadata, (Value.object m).Plain 120) →
              d.Inserts Payments.list (·.createdAt)
                (Payments.create amountCents currency metadata)) := by
  refine ⟨fun slot hload => ⟨Ledger.desk_lists hload hfaults, ?_⟩,
    fun slot hload => ⟨Ledger.desk_lists hload hfaults, ?_⟩⟩
  · intro hexact kind payload hpayload
    refine Ledger.desk_inserts hload hfaults (Chain.adds_push kind payload d)
      (Chain.respects_push (Fault.suits_spare .load _) kind payload) rfl ?_
    rw [← Ledger.records_of_load hload] at hexact ⊢
    have hplain : (Chain.nextEvent kind payload d).Plain 125 := hpayload.mono (by omega)
    refine List.forall_mem_append.2 ⟨fun e he => ?_, List.forall_mem_singleton.2 ?_⟩
    · exact Event.restores (Chain.plain_records hexact e he)
    · exact Event.restores hplain
  · intro hexact amountCents currency metadata hmetadata
    refine Ledger.desk_inserts hload hfaults (Payments.adds_create amountCents currency metadata d)
      (Payments.respects_create (Fault.suits_spare .load _) amountCents currency metadata) rfl ?_
    rw [← Ledger.records_of_load hload] at hexact ⊢
    have hplain : (Payments.nextSession amountCents currency metadata d).Plain 125 :=
      fun m hm => (hmetadata m hm).mono (by omega)
    refine List.forall_mem_append.2 ⟨fun s hs => ?_, List.forall_mem_singleton.2 ?_⟩
    · exact Session.restores (Payments.plain_records hexact s hs)
    · exact Session.restores hplain

theorem listings_newest_first_set_back :
    let late : Event := ⟨"ev_7_b", "late", .null, 7⟩
    let early : Event := ⟨"ev_-3_a", "early", .null, -3⟩
    let between : Event := ⟨"ev_5_00000000000040008000000000000001", "between", .null, 5⟩
    let slot := "[[\"ev_7_b\",\"late\",null,7],[\"ev_-3_a\",\"early\",null,-3]]".toUTF8
    let d : Desk := ⟨.memory [(Chain.ledger.key, slot)], [], 5, .countingFrom 1, []⟩
    Fault.Spare .load d.faults ∧ d.Lists Chain.list (·.timestamp) [late, early] ∧
      ∃ d' q, (Chain.push "between" .null).run d = (.ok between, d') ∧
        Chain.list.run d' = (.ok [late, between, early], q) := by
  intro late early between slot d
  have hfaults : Fault.Spare .load d.faults := List.forall_mem_nil _
  have hview : Chain.ledger.view (some slot) = [late, early] := rfl
  obtain ⟨hlists, hinserts⟩ := (listings_newest_first hfaults).1 (some slot) rfl
  have hexact : ∀ e ∈ [late, early], e.payload.Exact := by simp [late, early, Value.Exact]
  rw [hview] at hlists hinserts
  have hnext : Chain.nextEvent "between" .null d = between := by decide +kernel
  have hpush : (Chain.push "between" .null).run d =
      (.ok (Chain.nextEvent "between" .null d), _) := rfl
  rw [hnext] at hpush
  obtain ⟨listing, q, hlist, hlisting⟩ := hlists
  obtain ⟨-, before, _, after, q', hbefore, hafter, hplace⟩ :=
    hinserts hexact "between" .null (Value.plain_null _) between _ hpush
  cases hlist.symm.trans hbefore
  -- Each side of the new event is what is stored on that side of its time.
  have hnewer : listing.filter (between.timestamp < ·.timestamp) = [late] :=
    List.perm_singleton.1 (hlisting.perm.filter _)
  have holder : listing.filter (·.timestamp ≤ between.timestamp) = [early] :=
    List.perm_singleton.1 (hlisting.perm.filter _)
  rw [hplace.eq_filter, hnewer, holder] at hafter
  exact ⟨hfaults, ⟨_, q, hlist, hlisting⟩, _, q', hpush, hafter⟩

end PageScript
