import PageScript.Proofs.Agreement

/-!
# Ids that were issued

The id of an event or of a session ends in the unique text it was made with, whatever the time is
that stands before it (`MadeWith.inj`).  So ids that were made with texts of different numbers are
different as soon as no two of the texts are the same.  `Issued` says that of a list of ids, with
bounds for the numbers: what was issued later shares nothing with what was issued before
(`Issued.disjoint`).

`Renewed` is what becomes of the ids in a store.  Some stay, in their order, and others are issued
after all that were there.
-/

namespace PageScript

/-- The ids that events can have. -/
def Event.Ids : Set String := { id | ∃ t u, id = Event.idOf t u }

/-- The ids that sessions can have. -/
def Session.Ids : Set String := { id | ∃ t u, id = Session.idOf t u }

namespace Event

theorem uuid_of_idOf_eq {t t' : Int64} {u u' : String} (h : idOf t u = idOf t' u') : u = u' := by
  simp only [idOf, String.append_assoc, String.append_right_inj] at h
  exact Numeral.eq_of_intText_append h

theorem idOf_ne_idOf (t t' : Int64) (u u' : String) : idOf t u ≠ Session.idOf t' u' := by
  intro h
  have hlist := congrArg String.toList h
  simp [idOf, Session.idOf] at hlist

/-- No event has the id of a session. -/
theorem not_mem_sessionIds {id : String} (h : id ∈ Event.Ids) : id ∉ Session.Ids := by
  obtain ⟨t, u, rfl⟩ := h
  rintro ⟨t', u', h⟩
  exact idOf_ne_idOf t t' u u' h

end Event

/-- The id is that of an event or of a session that was made with the unique text. -/
def MadeWith (u id : String) : Prop :=
  ∃ t, id = Event.idOf t u ∨ id = Session.idOf t u

theorem MadeWith.inj {u u' id : String} (h : MadeWith u id) (h' : MadeWith u' id) : u = u' := by
  obtain ⟨t, rfl | rfl⟩ := h <;> obtain ⟨t', heq | heq⟩ := h'
  · exact Event.uuid_of_idOf_eq heq
  · exact absurd heq (Event.idOf_ne_idOf t t' u u')
  · exact absurd heq.symm (Event.idOf_ne_idOf t' t u' u)
  · exact Session.uuid_of_idOf_eq heq

/-- The ids are of this form and were made with unique texts that are numbered from `n` on and
below `m`, and no two of them are the same if no two of the texts are. -/
structure Issued (form : Set String) (uuid : ℕ → String) (n m : ℕ) (ids : List String) : Prop where
  le : n ≤ m
  formed : ∀ id ∈ ids, id ∈ form
  numbered : ∀ id ∈ ids, ∃ i, n ≤ i ∧ i < m ∧ MadeWith (uuid i) id
  nodup : Set.InjOn uuid (Set.Iio m) → ids.Nodup

namespace Issued

variable {form form' : Set String} {uuid : ℕ → String} {n m k i : ℕ} {ids more : List String}

theorem nil (h : n ≤ m) : Issued form uuid n m [] where
  le := h
  formed := List.forall_mem_nil _
  numbered := List.forall_mem_nil _
  nodup _ := List.nodup_nil

theorem event (t : Int64) (hn : n ≤ i) (hm : i < m) :
    Issued Event.Ids uuid n m [Event.idOf t (uuid i)] where
  le := hn.trans hm.le
  formed := List.forall_mem_singleton.2 ⟨t, uuid i, rfl⟩
  numbered := List.forall_mem_singleton.2 ⟨i, hn, hm, t, .inl rfl⟩
  nodup _ := List.nodup_singleton _

theorem session (t : Int64) (hn : n ≤ i) (hm : i < m) :
    Issued Session.Ids uuid n m [Session.idOf t (uuid i)] where
  le := hn.trans hm.le
  formed := List.forall_mem_singleton.2 ⟨t, uuid i, rfl⟩
  numbered := List.forall_mem_singleton.2 ⟨i, hn, hm, t, .inr rfl⟩
  nodup _ := List.nodup_singleton _

theorem mono (h : Issued form uuid n m ids) (hform : form ⊆ form') : Issued form' uuid n m ids :=
  { h with formed := fun id hid => hform (h.formed id hid) }

theorem sublist (h : Issued form uuid n m more) (hsub : ids.Sublist more) :
    Issued form uuid n m ids where
  le := h.le
  formed id hid := h.formed id (hsub.subset hid)
  numbered id hid := h.numbered id (hsub.subset hid)
  nodup hinj := (h.nodup hinj).sublist hsub

/-- What was issued later shares nothing with what was issued before. -/
theorem disjoint (h : Issued form uuid n m ids) (h' : Issued form' uuid m k more)
    (hinj : Set.InjOn uuid (Set.Iio k)) : ids.Disjoint more := by
  intro id hid hid'
  obtain ⟨i, -, him, hi⟩ := h.numbered id hid
  obtain ⟨j, hmj, hjk, hj⟩ := h'.numbered id hid'
  have hij : i = j := hinj (him.trans_le (hmj.trans hjk.le)) hjk (hi.inj hj)
  omega

theorem append (h : Issued form uuid n m ids) (h' : Issued form uuid m k more) :
    Issued form uuid n k (ids ++ more) where
  le := h.le.trans h'.le
  formed := List.forall_mem_append.2 ⟨h.formed, h'.formed⟩
  numbered := by
    refine List.forall_mem_append.2 ⟨fun id hid => ?_, fun id hid => ?_⟩
    · obtain ⟨i, hn, hm, hi⟩ := h.numbered id hid
      exact ⟨i, hn, hm.trans_le h'.le, hi⟩
    · obtain ⟨i, hm, hk, hi⟩ := h'.numbered id hid
      exact ⟨i, h.le.trans hm, hk, hi⟩
  nodup hinj :=
    (h.nodup (hinj.mono (Set.Iio_subset_Iio h'.le))).append (h'.nodup hinj) (h.disjoint h' hinj)

/-- Ids of events and ids of sessions, whichever were made first. -/
theorem union (h : Issued Event.Ids uuid n m ids) (h' : Issued Session.Ids uuid n m more) :
    Issued Set.univ uuid n m (ids ++ more) where
  le := h.le
  formed _ _ := Set.mem_univ _
  numbered := List.forall_mem_append.2 ⟨h.numbered, h'.numbered⟩
  nodup hinj := (h.nodup hinj).append (h'.nodup hinj) fun id hid hid' =>
    Event.not_mem_sessionIds (h.formed id hid) (h'.formed id hid')

end Issued

/-- Of the ids some were kept, in their order, and others of this form were issued after them. -/
def Renewed (form : Set String) (uuid : ℕ → String) (n m : ℕ) (ids ids' : List String) : Prop :=
  ∃ kept new, ids' = kept ++ new ∧ kept.Sublist ids ∧ Issued form uuid n m new

namespace Renewed

variable {form form' : Set String} {uuid : ℕ → String} {n m k : ℕ} {ids ids' ids'' : List String}

theorem kept (h : n ≤ m) (ids : List String) : Renewed form uuid n m ids ids :=
  ⟨ids, [], (List.append_nil ids).symm, List.Sublist.refl ids, .nil h⟩

theorem cleared (h : n ≤ m) (ids : List String) : Renewed form uuid n m ids [] :=
  ⟨[], [], rfl, List.nil_sublist ids, .nil h⟩

theorem added {new : List String} (h : Issued form uuid n m new) (ids : List String) :
    Renewed form uuid n m ids (ids ++ new) :=
  ⟨ids, new, rfl, List.Sublist.refl ids, h⟩

theorem trans (h : Renewed form uuid n m ids ids') (h' : Renewed form uuid m k ids' ids'') :
    Renewed form uuid n k ids ids'' := by
  obtain ⟨kept, new, rfl, hkept, hnew⟩ := h
  obtain ⟨kept', more, rfl, hkept', hmore⟩ := h'
  obtain ⟨old, young, rfl, hold, hyoung⟩ := List.sublist_append_iff.1 hkept'
  exact ⟨old, young ++ more, List.append_assoc old young more, hold.trans hkept,
    (hnew.sublist hyoung).append hmore⟩

/-- What there is after a start with nothing was all issued since. -/
theorem issued (h : Renewed form uuid n m [] ids) : Issued form uuid n m ids := by
  obtain ⟨kept, new, rfl, hkept, hnew⟩ := h
  rw [List.sublist_nil.1 hkept, List.nil_append]
  exact hnew

/-- An id that was issued before is there only if it stayed. -/
theorem mem_of_issued {l : ℕ} {earlier : List String} {id : String}
    (h : Renewed form uuid n m ids ids') (hearlier : Issued form' uuid l n earlier)
    (hinj : Set.InjOn uuid (Set.Iio m)) (hid : id ∈ earlier) (hmem : id ∈ ids') : id ∈ ids := by
  obtain ⟨kept, new, rfl, hkept, hnew⟩ := h
  rcases List.mem_append.1 hmem with hmem | hmem
  · exact hkept.subset hmem
  · exact absurd hmem (hearlier.disjoint hnew hinj hid)

end Renewed

end PageScript
