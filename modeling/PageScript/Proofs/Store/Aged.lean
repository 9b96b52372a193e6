import PageScript.Proofs.Agreement

/-!
# How the payments age

Sessions that are made one after the other have the unique ids of increasing numbers in their ids
(`Session.Made`), so their order in the ledger is the order of their creation and no two of them
share an id.  From one desk to a later one they keep their places and change at most in their
status, once and from pending to another, and what is added comes after them (`Payments.Advances`).

`Payments.Spent` says of an id that it cannot be settled any more.  It stays so even when all
sessions are removed, since no later session gets the same id.
-/

namespace PageScript

open Json

namespace Session

/-- What becomes of a session: nothing, or it is settled. -/
def Ages (s s' : Session) : Prop :=
  s' = s ∨ s.status = .pending ∧ ∃ status, status ≠ .pending ∧ s' = { s with status }

variable {s s' s'' : Session}

theorem Ages.refl (s : Session) : s.Ages s := .inl rfl

theorem Ages.trans (h : s.Ages s') (h' : s'.Ages s'') : s.Ages s'' := by
  rcases h with rfl | ⟨hs, status, hstatus, rfl⟩
  · exact h'
  · rcases h' with rfl | ⟨hpending, -⟩
    · exact .inr ⟨hs, status, hstatus, rfl⟩
    · exact absurd hpending hstatus

theorem Ages.id_eq (h : s.Ages s') : s'.id = s.id := by
  rcases h with rfl | ⟨-, status, -, rfl⟩ <;> rfl

theorem Ages.createdAt_eq (h : s.Ages s') : s'.createdAt = s.createdAt := by
  rcases h with rfl | ⟨-, status, -, rfl⟩ <;> rfl

theorem Ages.plain {room : ℕ} (h : s.Ages s') (hp : s.Plain room) : s'.Plain room := by
  rcases h with rfl | ⟨-, status, -, rfl⟩
  · exact hp
  · exact hp.withStatus status

theorem Ages.eq_of_settled (h : s.Ages s') (hs : s.status ≠ .pending) : s' = s :=
  h.resolve_right fun hpending => hs hpending.1

theorem exists_of_mem_ages {sessions later : List Session} (h : List.Forall₂ Ages sessions later)
    {s' : Session} (hs : s' ∈ later) : ∃ s ∈ sessions, s.Ages s' := by
  induction h with
  | nil => cases hs
  | cons ha _ ih =>
    rcases List.mem_cons.1 hs with rfl | hs
    · exact ⟨_, List.mem_cons_self, ha⟩
    · obtain ⟨s, hmem, hages⟩ := ih hs
      exact ⟨s, List.mem_cons_of_mem _ hmem, hages⟩

theorem plain_of_ages {room : ℕ} {sessions later : List Session}
    (h : List.Forall₂ Ages sessions later) (hp : ∀ s ∈ sessions, s.Plain room) :
    ∀ s ∈ later, s.Plain room := by
  intro s' hs'
  obtain ⟨s, hs, ha⟩ := exists_of_mem_ages h hs'
  exact ha.plain (hp s hs)

theorem ages_settle {s : Session} (hs : s.status = .pending) {status : Status}
    (hstatus : status ≠ .pending) (before after : List Session) :
    List.Forall₂ Ages (before ++ s :: after) (before ++ { s with status } :: after) := by
  induction before with
  | nil =>
    exact .cons (.inr ⟨hs, status, hstatus, rfl⟩) (List.forall₂_same.2 fun r _ => .refl r)
  | cons r before ih => exact .cons (.refl r) ih

/-- Where sessions aged, others were added, and all of them aged again, the former have aged. -/
theorem ages_append {sessions kept added later : List Session}
    (h : List.Forall₂ Ages sessions kept) (h' : List.Forall₂ Ages (kept ++ added) later) :
    ∃ old young, later = old ++ young ∧ List.Forall₂ Ages sessions old ∧
      List.Forall₂ Ages added young := by
  induction h generalizing later with
  | nil => exact ⟨[], later, rfl, .nil, h'⟩
  | cons ha _ ih =>
    cases h' with
    | cons hb hrest =>
      obtain ⟨old, young, rfl, hold, hyoung⟩ := ih hrest
      exact ⟨_ :: old, young, rfl, .cons (ha.trans hb) hold, hyoung⟩

/-- The sessions were made one after the other, with unique ids that are numbered from `n` on and
below `m`. -/
inductive Made (uuid : ℕ → String) : ℕ → ℕ → List Session → Prop
  | nil {n m : ℕ} (h : n ≤ m) : Made uuid n m []
  | cons {n m i : ℕ} {s : Session} {rest : List Session} (hi : n ≤ i)
    (hid : s.id = idOf s.createdAt (uuid i)) (hrest : Made uuid (i + 1) m rest) :
    Made uuid n m (s :: rest)

namespace Made

variable {uuid : ℕ → String} {n m k : ℕ} {sessions more : List Session}

theorem le (h : Made uuid n m sessions) : n ≤ m := by
  induction h with
  | nil h => exact h
  | cons hi _ _ ih => omega

theorem one (s : Session) (hid : s.id = idOf s.createdAt (uuid n)) (h : n < m) :
    Made uuid n m [s] :=
  .cons le_rfl hid (.nil h)

theorem append (h : Made uuid n m sessions) (h' : Made uuid m k more) :
    Made uuid n k (sessions ++ more) := by
  induction h with
  | nil h =>
    cases h' with
    | nil h' => exact .nil (h.trans h')
    | cons hi hid hrest => exact .cons (h.trans hi) hid hrest
  | cons hi hid _ ih => exact .cons hi hid (ih h')

theorem exists_of_mem (h : Made uuid n m sessions) {s : Session} (hs : s ∈ sessions) :
    ∃ i, n ≤ i ∧ i < m ∧ s.id = idOf s.createdAt (uuid i) := by
  induction h with
  | nil => cases hs
  | @cons n m i r rest hi hid hrest ih =>
    rcases List.mem_cons.1 hs with rfl | hs
    · exact ⟨i, hi, hrest.le, hid⟩
    · obtain ⟨j, hj, hjm, hsid⟩ := ih hs
      exact ⟨j, by omega, hjm, hsid⟩

/-- Different numbers make different ids. -/
theorem nodup (h : Made uuid n m sessions) (hinj : Set.InjOn uuid (Set.Iio m)) :
    (sessions.map (·.id)).Nodup := by
  induction h with
  | nil => exact List.nodup_nil
  | @cons n m i s rest hi hid hrest ih =>
    rw [List.map_cons, List.nodup_cons]
    refine ⟨fun hmem => ?_, ih hinj⟩
    obtain ⟨r, hr, hrs⟩ := List.mem_map.1 hmem
    obtain ⟨j, hj, hjm, hrid⟩ := hrest.exists_of_mem hr
    rw [hrid, hid] at hrs
    have hji : j = i := hinj hjm hrest.le (uuid_of_idOf_eq hrs)
    omega

theorem ages (h : Made uuid n m sessions) {later : List Session}
    (hl : List.Forall₂ Ages sessions later) : Made uuid n m later := by
  induction h generalizing later with
  | nil h =>
    cases hl
    exact .nil h
  | cons hi hid _ ih =>
    cases hl with
    | cons ha hl => exact .cons hi (by rw [ha.id_eq, ha.createdAt_eq, hid]) (ih hl)

end Made

end Session

namespace Payments

/-- The sessions that can be read at a desk. -/
def sessions (d : Desk) : List Session := ledger.records d.backing

/-- From the desk `d` on, the sessions have aged until the desk `d'`, and others were added. -/
structure Advances (d d' : Desk) : Prop where
  uuid : d'.ids.uuid = d.ids.uuid
  drawn : d.ids.drawn ≤ d'.ids.drawn
  sessions : ∃ kept new, sessions d' = kept ++ new ∧ List.Forall₂ Session.Ages (sessions d) kept ∧
    Session.Made d.ids.uuid d.ids.drawn d'.ids.drawn new ∧ ∀ s ∈ new, s.Plain 125

namespace Advances

variable {d d' d'' : Desk}

theorem refl (d : Desk) : Advances d d where
  uuid := rfl
  drawn := le_rfl
  sessions := ⟨_, [], (List.append_nil _).symm, List.forall₂_same.2 fun s _ => .refl s,
    .nil le_rfl, List.forall_mem_nil _⟩

theorem trans (h : Advances d d') (h' : Advances d' d'') : Advances d d'' where
  uuid := h'.uuid.trans h.uuid
  drawn := h.drawn.trans h'.drawn
  sessions := by
    obtain ⟨kept, new, heq, hages, hmade, hplain⟩ := h.sessions
    obtain ⟨kept', more, heq', hages', hmade', hplain'⟩ := h'.sessions
    rw [heq] at hages'
    obtain ⟨old, young, rfl, hold, hyoung⟩ := Session.ages_append hages hages'
    rw [h.uuid] at hmade'
    refine ⟨old, young ++ more, by rw [heq', List.append_assoc], hold,
      (hmade.ages hyoung).append hmade', List.forall_mem_append.2 ⟨?_, hplain'⟩⟩
    exact Session.plain_of_ages hyoung hplain

end Advances

/-- That the sessions at a desk are read back as they are written, and were made one after the
other with the unique ids drawn so far. -/
structure Books (d : Desk) : Prop where
  plain : ∀ s ∈ sessions d, s.Plain 125
  made : Session.Made d.ids.uuid 0 d.ids.drawn (sessions d)

/-- That a session with this id was made, and that there is none that is still pending. -/
structure Spent (d : Desk) (id : String) : Prop where
  made : ∃ i < d.ids.drawn, ∃ createdAt, id = Session.idOf createdAt (d.ids.uuid i)
  settled : ∀ s ∈ sessions d, s.id = id → s.status ≠ .pending

variable {d d' : Desk}

/-- Settling a session. -/
theorem Advances.settle {id : String} {status : Status} {p : Session} {changed : List Session}
    (hc : settleFirst id status (Payments.sessions d) = (some p, changed))
    (hstatus : status ≠ .pending) (huuid : d'.ids.uuid = d.ids.uuid)
    (hdrawn : d.ids.drawn ≤ d'.ids.drawn) (h : Payments.sessions d' = changed) :
    Advances d d' where
  uuid := huuid
  drawn := hdrawn
  sessions := by
    obtain ⟨before, s, after, heq, -, -, hpending, rfl, rfl⟩ := settleFirst_cases hc
    rw [heq]
    exact ⟨_, [], by rw [h, List.append_nil], Session.ages_settle hpending hstatus before after,
      .nil hdrawn, List.forall_mem_nil _⟩

theorem Books.advances (h : Books d) (ha : Advances d d') : Books d' := by
  obtain ⟨kept, new, heq, hages, hmade, hplain⟩ := ha.sessions
  refine ⟨?_, ?_⟩
  · rw [heq]
    exact List.forall_mem_append.2 ⟨Session.plain_of_ages hages h.plain, hplain⟩
  · rw [heq, ha.uuid]
    exact (h.made.ages hages).append hmade

theorem Books.cleared (h : sessions d = []) : Books d := by
  refine ⟨?_, ?_⟩
  · rw [h]
    exact List.forall_mem_nil _
  · rw [h]
    exact .nil (Nat.zero_le _)

theorem Spent.advances {id : String} (h : Spent d id) (ha : Advances d d')
    (hinj : Set.InjOn d.ids.uuid (Set.Iio d'.ids.drawn)) : Spent d' id := by
  obtain ⟨kept, new, heq, hages, hmade, -⟩ := ha.sessions
  obtain ⟨i, hi, createdAt, hid⟩ := h.made
  refine ⟨⟨i, hi.trans_le ha.drawn, createdAt, ha.uuid ▸ hid⟩, ?_⟩
  rw [heq]
  intro s hs hsid
  rcases List.mem_append.1 hs with hs | hs
  · obtain ⟨r, hr, hrs⟩ := Session.exists_of_mem_ages hages hs
    have hsettled := h.settled r hr (hrs.id_eq ▸ hsid)
    rw [hrs.eq_of_settled hsettled]
    exact hsettled
  · obtain ⟨j, hj, hjd, hsj⟩ := hmade.exists_of_mem hs
    have hij : j = i := hinj hjd (hi.trans_le ha.drawn)
      (Session.uuid_of_idOf_eq (hsj.symm.trans (hsid.trans hid)))
    omega

theorem Spent.cleared {id : String} (h : Spent d id) (huuid : d'.ids.uuid = d.ids.uuid)
    (hdrawn : d.ids.drawn ≤ d'.ids.drawn) (hclear : sessions d' = []) : Spent d' id := by
  obtain ⟨i, hi, createdAt, hid⟩ := h.made
  refine ⟨⟨i, hi.trans_le hdrawn, createdAt, huuid ▸ hid⟩, ?_⟩
  rw [hclear]
  exact List.forall_mem_nil _

end Payments

end PageScript
