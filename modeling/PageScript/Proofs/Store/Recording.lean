import PageScript.Proofs.Records
import PageScript.Proofs.Store.Slots
import PageScript.Store.Chain
import PageScript.Store.Payments

/-!
# Appending and updating records

`Ledger.records` are the records that can be read from a backing.  An append fails, at the load or
at the save, or the slot then holds the old records and the new one (`Ledger.Appends`).  An update
may also find nothing to change, and then it does not save (`Ledger.Updates`).  A failure never
changes the backing.

What was saved is what is read afterwards when each record is restored by the format of the ledger
(`Ledger.records_save_self`), and the records of a ledger with another key stay
(`Ledger.records_save_of_ne`).
-/

namespace PageScript

open Json

deriving instance DecidableEq for HookCall

deriving instance DecidableEq for Occurrence

section Run

variable {S α β : Type}

theorem bind_apply (x : StateM S α) (f : α → StateM S β) (s : S) :
    (x >>= f) s = f (x s).1 (x s).2 := rfl

theorem discard_apply (x : StateM S α) (s : S) : (discard x) s = ((), (x s).2) := rfl

theorem run_bind (x : ExceptT Failure (StateM S) α) (f : α → ExceptT Failure (StateM S) β)
    (s : S) :
    (x >>= f).run s =
      match x.run s with
      | (.ok a, s') => (f a).run s'
      | (.error e, s') => (.error e, s') := by
  rw [ExceptT.run_bind, bind_apply]
  rcases x.run s with ⟨_ | _, _⟩ <;> rfl

theorem run_bind_of_ok {x : ExceptT Failure (StateM S) α} {s s' : S} {a : α}
    (h : x.run s = (.ok a, s')) (f : α → ExceptT Failure (StateM S) β) :
    (x >>= f).run s = (f a).run s' := by
  rw [run_bind, h]

theorem run_bind_of_error {x : ExceptT Failure (StateM S) α} {s s' : S} {e : Failure}
    (h : x.run s = (.error e, s')) (f : α → ExceptT Failure (StateM S) β) :
    (x >>= f).run s = (.error e, s') := by
  rw [run_bind, h]

theorem run_discard_of_ok {x : ExceptT Failure (StateM S) α} {s s' : S} {a : α}
    (h : x.run s = (.ok a, s')) : (discard x).run s = (.ok (), s') := by
  rw [Functor.discard, map_const, Function.comp_apply, map_eq_pure_bind]
  exact run_bind_of_ok h _

theorem run_discard_of_error {x : ExceptT Failure (StateM S) α} {s s' : S} {e : Failure}
    (h : x.run s = (.error e, s')) : (discard x).run s = (.error e, s') := by
  rw [Functor.discard, map_const, Function.comp_apply, map_eq_pure_bind]
  exact run_bind_of_error h _

theorem run_lift_of_eq {x : StateM S α} {s s' : S} {a : α} (h : x s = (a, s')) :
    (liftM x : ExceptT Failure (StateM S) α).run s = (.ok a, s') := by
  change ((.ok (x s).1 : Except Failure α), (x s).2) = _
  rw [h]

end Run

namespace Desk

/-- From the desk `d` the desk `q` was reached without the clock being moved; `n` ids were drawn
and `w` was taken down. -/
structure Reaches (d : Desk) (n : ℕ) (w : List Occurrence) (q : Desk) : Prop where
  now : q.now = d.now
  uuid : q.ids.uuid = d.ids.uuid
  drawn : q.ids.drawn = d.ids.drawn + n
  record : q.record = d.record ++ w

theorem Reaches.trans {d q r : Desk} {n m : ℕ} {w v : List Occurrence} (h : d.Reaches n w q)
    (h' : q.Reaches m v r) : d.Reaches (n + m) (w ++ v) r where
  now := h'.now.trans h.now
  uuid := h'.uuid.trans h.uuid
  drawn := by rw [h'.drawn, h.drawn, Nat.add_assoc]
  record := by rw [h'.record, h.record, List.append_assoc]

theorem load_cases (key : String) (d : Desk) :
    (∃ f q, (load key).run d = (.error f, q) ∧ d.Reaches 0 [.loadFailed key f] q ∧
        q.backing = d.backing) ∨
      ∃ slot q, (load key).run d = (.ok slot, q) ∧ d.Reaches 0 [.loaded key] q ∧
        q.backing = d.backing ∧ d.backing.load key = .ok slot := by
  rcases hask : Fault.ask .load key d.faults with ⟨_ | f, faults⟩
  · rcases hload : d.backing.load key with e | slot
    · exact .inl ⟨.inOut (.file e), { d with faults }.note (.loadFailed key (.inOut (.file e))),
        by simp [load, hask, hload], ⟨rfl, rfl, rfl, rfl⟩, rfl⟩
    · exact .inr ⟨slot, { d with faults }.note (.loaded key), by simp [load, hask, hload],
        ⟨rfl, rfl, rfl, rfl⟩, rfl, rfl⟩
  · exact .inl ⟨f, { d with faults }.note (.loadFailed key f), by simp [load, hask],
      ⟨rfl, rfl, rfl, rfl⟩, rfl⟩

theorem save_cases (key : String) (content : ByteArray) (d : Desk) :
    (∃ f q, (save key content).run d = (.error f, q) ∧ d.Reaches 0 [.saveFailed key f] q ∧
        q.backing = d.backing) ∨
      ∃ q, (save key content).run d = (.ok (), q) ∧ d.Reaches 0 [.saved key] q ∧
        d.backing.save key content = .ok q.backing := by
  rcases hask : Fault.ask .save key d.faults with ⟨_ | f, faults⟩
  · rcases hsave : d.backing.save key content with e | backing
    · exact .inl ⟨.inOut (.file e), { d with faults }.note (.saveFailed key (.inOut (.file e))),
        by simp [save, hask, hsave], ⟨rfl, rfl, rfl, rfl⟩, rfl⟩
    · exact .inr ⟨{ d with backing, faults }.note (.saved key), by simp [save, hask, hsave],
        ⟨rfl, rfl, rfl, rfl⟩, rfl⟩
  · exact .inl ⟨f, { d with faults }.note (.saveFailed key f), by simp [save, hask],
      ⟨rfl, rfl, rfl, rfl⟩, rfl⟩

end Desk

namespace Ledger

variable {α β : Type}

/-- The records that can be read from a backing; none when the slot cannot be loaded. -/
def records (l : Ledger α) (b : Backing) : List α :=
  match b.load l.key with
  | .ok slot => l.view slot
  | .error _ => []

theorem records_of_load {l : Ledger α} {b : Backing} {slot : Option ByteArray}
    (h : b.load l.key = .ok slot) : l.records b = l.view slot := by
  rw [records, h]

theorem read_cases (l : Ledger α) (d : Desk) :
    (∃ f q, l.read.run d = (.error f, q) ∧ d.Reaches 0 [.loadFailed l.key f] q ∧
        q.backing = d.backing) ∨
      ∃ q, l.read.run d = (.ok (l.records d.backing), q) ∧ d.Reaches 0 [.loaded l.key] q ∧
        q.backing = d.backing := by
  rcases Desk.load_cases l.key d with ⟨f, q, h, hq, hb⟩ | ⟨slot, q, h, hq, hb, hload⟩
  · exact .inl ⟨f, q, run_bind_of_error h _, hq, hb⟩
  · refine .inr ⟨q, (run_bind_of_ok h _).trans ?_, hq, hb⟩
    rw [records_of_load hload]
    rfl

/-- What is taken down when a slot could not be loaded, or not be saved after it was loaded. -/
inductive Failed (key : String) (f : Failure) : List Occurrence → Prop
  | unread : Failed key f [.loadFailed key f]
  | unsaved : Failed key f [.loaded key, .saveFailed key f]

/-- The backing `b'` is what saving the records `as` in the backing `b` leaves. -/
def Saves (l : Ledger α) (as : List α) (b b' : Backing) : Prop :=
  b.save l.key (l.format.encode as) = .ok b'

theorem write_cases (l : Ledger α) (as : List α) (d : Desk) :
    (∃ f q, (l.write as).run d = (.error f, q) ∧ d.Reaches 0 [.saveFailed l.key f] q ∧
        q.backing = d.backing) ∨
      ∃ q, (l.write as).run d = (.ok (), q) ∧ d.Reaches 0 [.saved l.key] q ∧
        l.Saves as d.backing q.backing :=
  Desk.save_cases l.key (l.format.encode as) d

theorem clear_cases (l : Ledger α) (d : Desk) :
    (∃ f q, l.clear.run d = (.error f, q) ∧ d.Reaches 0 [.saveFailed l.key f] q ∧
        q.backing = d.backing) ∨
      ∃ q, l.clear.run d = (.ok (), q) ∧ d.Reaches 0 [.saved l.key] q ∧
        l.Saves [] d.backing q.backing :=
  l.write_cases [] d

/-- How an append of `a` at the desk `d` may end. -/
inductive Appends (l : Ledger α) (a : α) (d : Desk) : Except Failure Unit × Desk → Prop
  | failed {f : Failure} {w : List Occurrence} {q : Desk} (hw : Failed l.key f w)
    (hq : d.Reaches 0 w q) (hb : q.backing = d.backing) : Appends l a d (.error f, q)
  | saved {q : Desk} (hq : d.Reaches 0 [.loaded l.key, .saved l.key] q)
    (hb : l.Saves (l.records d.backing ++ [a]) d.backing q.backing) : Appends l a d (.ok (), q)

theorem appends_append (l : Ledger α) (a : α) (d : Desk) :
    l.Appends a d ((l.append a).run d) := by
  rcases l.read_cases d with ⟨f, q, hread, hq, hb⟩ | ⟨q, hread, hq, hb⟩
  · rw [append, run_bind_of_error hread]
    exact .failed .unread hq hb
  rw [append, run_bind_of_ok hread]
  rcases l.write_cases (l.records d.backing ++ [a]) q with
    ⟨f, q', hsave, hq', hb'⟩ | ⟨q', hsave, hq', hb'⟩
  · rw [hsave]
    exact .failed .unsaved (hq.trans hq') (hb'.trans hb)
  · rw [hsave]
    exact .saved (hq.trans hq') (hb ▸ hb')

/-- How an update at the desk `d` may end.  Once the slot was loaded, it fails only where there is
something to save. -/
inductive Updates (l : Ledger α) (change : List α → Option β × List α) (d : Desk) :
    Except Failure (Option β) × Desk → Prop
  | failed {f : Failure} {w : List Occurrence} {q : Desk} (hw : Failed l.key f w)
    (hq : d.Reaches 0 w q) (hb : q.backing = d.backing)
    (hc : .loaded l.key ∈ w → (change (l.records d.backing)).1 ≠ none) :
    Updates l change d (.error f, q)
  | unchanged {q : Desk} (hc : (change (l.records d.backing)).1 = none)
    (hq : d.Reaches 0 [.loaded l.key] q) (hb : q.backing = d.backing) :
    Updates l change d (.ok none, q)
  | saved {b : β} {changed : List α} {q : Desk}
    (hc : change (l.records d.backing) = (some b, changed))
    (hq : d.Reaches 0 [.loaded l.key, .saved l.key] q)
    (hb : l.Saves changed d.backing q.backing) : Updates l change d (.ok (some b), q)

theorem updates_update (l : Ledger α) (change : List α → Option β × List α) (d : Desk) :
    l.Updates change d ((l.update change).run d) := by
  rcases l.read_cases d with ⟨f, q, hread, hq, hb⟩ | ⟨q, hread, hq, hb⟩
  · rw [update, run_bind_of_error hread]
    exact .failed .unread hq hb (by simp)
  rw [update, run_bind_of_ok hread]
  rcases hc : change (l.records d.backing) with ⟨_ | b, changed⟩
  · exact .unchanged (by rw [hc]) hq hb
  rcases l.write_cases changed q with ⟨f, q', hsave, hq', hb'⟩ | ⟨q', hsave, hq', hb'⟩
  · rw [run_bind_of_error hsave]
    exact .failed .unsaved (hq.trans hq') (hb'.trans hb) fun _ => by simp [hc]
  · rw [run_bind_of_ok hsave]
    exact .saved hc (hq.trans hq') (hb ▸ hb')

/-- Records that are each restored by the format are read from a slot they were saved in. -/
theorem records_save_self {l : Ledger α} {b b' : Backing} {records : List α}
    (hr : ∀ a ∈ records, l.format.Restores 126 a) (h : l.Saves records b b') :
    l.records b' = records := by
  simp [Ledger.records, Backing.load_save_self h, view, Format.decode?_encode l.format hr]

theorem records_save_of_ne {l : Ledger α} {key : String} {b b' : Backing} {content : ByteArray}
    (hk : Backing.IsSlotName l.key) (hkey : Backing.IsSlotName key) (hne : l.key ≠ key)
    (h : b.save key content = .ok b') : l.records b' = l.records b := by
  rw [Ledger.records, Backing.load_save_of_ne hkey hk hne h]
  rfl

theorem exists_of_mem_records {l : Ledger α} {b : Backing} {a : α} (h : a ∈ l.records b) :
    ∃ o, l.format.read? 126 o = some a := by
  unfold records at h
  split at h
  · rename_i slot _
    rcases slot with _ | bytes
    · simp [view] at h
    · rw [view] at h
      rcases hd : l.format.decode? bytes with _ | as
      · simp [hd] at h
      · obtain ⟨_, -, o, -, ho⟩ := Format.exists_of_mem_decode? hd (by simpa [hd] using h)
        exact ⟨o, ho⟩
  · simp at h

end Ledger

end PageScript
