import PageScript.Proofs.Store.Served

/-!
# Related desks

A computation respects a relation between states when from related states it comes to the same
result and leaves related states (`Respects`).  Whatever is put together from such computations is
one.  So for the requests that are made of a store (`Chain.Request`, `Payments.Request`) it is
enough that the relation tells nothing that the store sees: the time, the next id, and the load and
the save of its own slot (`Desk.Suits`).
-/

namespace PageScript

open Json

section Respects

variable {S α β : Type} {R : S → S → Prop}

/-- From related states the same result and related states. -/
def Respects (R : S → S → Prop) (x : StateM S α) : Prop :=
  ∀ ⦃s s'⦄, R s s' → (x s).1 = (x s').1 ∧ R (x s).2 (x s').2

theorem Respects.pure (a : α) : Respects R (Pure.pure a : StateM S α) :=
  fun _ _ h => ⟨rfl, h⟩

theorem Respects.bind {x : StateM S α} {f : α → StateM S β} (hx : Respects R x)
    (hf : ∀ a, Respects R (f a)) : Respects R (x >>= f) := by
  intro s s' h
  obtain ⟨heq, hrel⟩ := hx h
  rw [bind_apply, bind_apply, ← heq]
  exact hf _ hrel

theorem Respects.bindExcept {x : ExceptT Failure (StateM S) α}
    {f : α → ExceptT Failure (StateM S) β} (hx : Respects R x.run)
    (hf : ∀ a, Respects R (f a).run) : Respects R (x >>= f).run := by
  rw [ExceptT.run_bind]
  refine hx.bind fun r => ?_
  rcases r with e | a
  · exact .pure (Except.error e)
  · exact hf a

theorem Respects.discard {x : ExceptT Failure (StateM S) α} (hx : Respects R x.run) :
    Respects R (discard x).run := by
  rw [Functor.discard, map_const, Function.comp_apply, map_eq_pure_bind]
  exact hx.bindExcept fun _ => .pure _

theorem Respects.lift {x : StateM S α} (hx : Respects R x) :
    Respects R (liftM x : ExceptT Failure (StateM S) α).run := by
  rw [ExceptT.run_liftM]
  exact hx.bind fun a => .pure (Except.ok a)

theorem Respects.read {f : S → α} (hf : ∀ ⦃s s'⦄, R s s' → f s = f s') :
    Respects R (do return f (← get)) :=
  fun _ _ h => ⟨hf h, h⟩

theorem Respects.modify {f : S → S} (hf : ∀ ⦃s s'⦄, R s s' → R (f s) (f s')) :
    Respects R (modify f) :=
  fun _ _ h => ⟨rfl, hf h⟩

/-- A state related to itself, as long as something is true of it. -/
def Keeping (P : S → Prop) (s s' : S) : Prop :=
  s = s' ∧ P s

theorem respects_keeping {P : S → Prop} {x : StateM S α} :
    Respects (Keeping P) x ↔ ∀ s, P s → P (x s).2 := by
  constructor
  · exact fun h s hs => (h ⟨rfl, hs⟩).2.2
  · rintro h s _ ⟨rfl, hs⟩
    exact ⟨rfl, rfl, h s hs⟩

end Respects

variable {R : Desk → Desk → Prop} {α β : Type}

/-- That a relation between desks tells nothing that a store with the slot sees. -/
structure Desk.Suits (R : Desk → Desk → Prop) (key : String) : Prop where
  now : ∀ ⦃d d'⦄, R d d' → d.now = d'.now
  drawId : Respects R drawId
  load : Respects R (load key).run
  save : ∀ content, Respects R (save key content).run

namespace Desk

variable {d d' : Desk} {key : String}

/-- Of two desks that cannot be told apart by a load of the slot, and where the faults have the same
to say of it, both load it and both take down the same. -/
theorem load_alike (hask : (Fault.ask .load key d.faults).1 = (Fault.ask .load key d'.faults).1)
    (hload : d.backing.load key = d'.backing.load key) :
    ∃ r o, (load key).run d = (r, { d with faults := (Fault.ask .load key d.faults).2 }.note o) ∧
      (load key).run d' =
        (r, { d' with faults := (Fault.ask .load key d'.faults).2 }.note o) := by
  rcases h : Fault.ask .load key d.faults with ⟨_ | f, faults⟩ <;>
    rcases h' : Fault.ask .load key d'.faults with ⟨_ | f', faults'⟩ <;> rw [h, h'] at hask
  · rcases hl : d'.backing.load key with e | slot <;> rw [hl] at hload
    · exact ⟨_, _, by simp [load, h, hload]; rfl, by simp [load, h', hl]⟩
    · exact ⟨_, _, by simp [load, h, hload]; rfl, by simp [load, h', hl]⟩
  · cases hask
  · cases hask
  · cases hask
    exact ⟨_, _, by simp [load, h]; rfl, by simp [load, h']⟩

/-- Likewise for a save, which fails at both desks or leaves the slot saved at both. -/
theorem save_alike (content : ByteArray)
    (hask : (Fault.ask .save key d.faults).1 = (Fault.ask .save key d'.faults).1)
    (halike : Backing.Alike key d.backing d'.backing) :
    (∃ f, (save key content).run d = (.error f,
        { d with faults := (Fault.ask .save key d.faults).2 }.note (.saveFailed key f)) ∧
      (save key content).run d' = (.error f,
        { d' with faults := (Fault.ask .save key d'.faults).2 }.note (.saveFailed key f))) ∨
      ∃ b b', d.backing.save key content = .ok b ∧ d'.backing.save key content = .ok b' ∧
        (save key content).run d = (.ok (),
          { d with backing := b, faults := (Fault.ask .save key d.faults).2 }.note (.saved key)) ∧
        (save key content).run d' = (.ok (),
          { d' with backing := b', faults := (Fault.ask .save key d'.faults).2 }.note
            (.saved key)) := by
  rcases h : Fault.ask .save key d.faults with ⟨_ | f, faults⟩ <;>
    rcases h' : Fault.ask .save key d'.faults with ⟨_ | f', faults'⟩ <;> rw [h, h'] at hask
  · rcases halike.save_cases content with ⟨e, hb, hb'⟩ | ⟨b, b', hb, hb'⟩
    · exact .inl ⟨_, by simp [save, h, hb]; rfl, by simp [save, h', hb']⟩
    · exact .inr ⟨b, b', hb, hb', by simp [save, h, hb], by simp [save, h', hb']⟩
  · cases hask
  · cases hask
  · cases hask
    exact .inl ⟨f, by simp [save, h], by simp [save, h']⟩

/-- What a load comes to: what is left of the faults, and something taken down. -/
theorem load_leaves (key : String) (d : Desk) :
    ∃ o, ((load key).run d).2 = { d with faults := (Fault.ask .load key d.faults).2 }.note o := by
  obtain ⟨r, o, h, -⟩ := @load_alike d d key rfl rfl
  exact ⟨o, by rw [h]⟩

/-- What a save comes to: besides, a backing with the slot saved, or the same backing. -/
theorem save_leaves (key : String) (content : ByteArray) (d : Desk) :
    ∃ o, ((save key content).run d).2 =
        { d with faults := (Fault.ask .save key d.faults).2 }.note o ∨
      ∃ b, d.backing.save key content = .ok b ∧ ((save key content).run d).2 =
        { d with backing := b, faults := (Fault.ask .save key d.faults).2 }.note o := by
  rcases @save_alike d d key content rfl (.refl key _) with ⟨f, h, -⟩ | ⟨b, -, hb, -, h, -⟩
  · exact ⟨_, .inl (by rw [h])⟩
  · exact ⟨_, .inr ⟨b, hb, by rw [h]⟩⟩

/-- What every draw of an id, every load and every save of the slot keeps true is kept true by the
store with the slot. -/
theorem suits_keeping {P : Desk → Prop} (hids : ∀ d ids, P d → P { d with ids })
    (hload : ∀ d, P d → P ((load key).run d).2)
    (hsave : ∀ content d, P d → P ((save key content).run d).2) : Suits (Keeping P) key where
  now _ _ h := congrArg now h.1
  drawId := respects_keeping.2 fun d hd => hids d _ hd
  load := respects_keeping.2 hload
  save content := respects_keeping.2 (hsave content)

end Desk

namespace Ledger

variable {l : Ledger α}

theorem respects_read (h : Desk.Suits R l.key) : Respects R l.read.run :=
  h.load.bindExcept fun _ => .pure _

theorem respects_append (h : Desk.Suits R l.key) (a : α) : Respects R (l.append a).run :=
  (respects_read h).bindExcept fun _ => h.save _

theorem respects_update (h : Desk.Suits R l.key) (change : List α → Option β × List α) :
    Respects R (l.update change).run := by
  refine (respects_read h).bindExcept fun records => ?_
  rcases change records with ⟨_ | b, changed⟩
  · exact .pure _
  · exact (h.save _).bindExcept fun _ => .pure _

theorem respects_clear (h : Desk.Suits R l.key) : Respects R l.clear.run :=
  h.save _

/-- Making a record of the next id and the time, and appending it. -/
theorem respects_add (h : Desk.Suits R l.key) (make : String → Int64 → α) :
    Respects R (do
      let a ← (do
        let uuid ← Desk.drawId
        return make uuid (← get).now : StateM Desk α)
      l.append a
      return a : Action α).run := by
  have hmake : Respects R (do
      let uuid ← Desk.drawId
      return make uuid (← get).now : StateM Desk α) :=
    h.drawId.bind fun uuid => .read fun _ _ hd => by rw [h.now hd]
  exact hmake.lift.bindExcept fun a => (respects_append h a).bindExcept fun _ => .pure _

end Ledger

namespace Chain

/-- What may be asked of the chain. -/
inductive Request where
  | push (kind : String) (payload : Value)
  | list
  | clear

inductive Response where
  | event (e : Event)
  | events (es : List Event)
  | done
deriving DecidableEq

def Request.perform : Request → Action Response
  | .push kind payload => return .event (← Chain.push kind payload)
  | .list => return .events (← Chain.list)
  | .clear => do
    Chain.clear
    return .done

theorem respects_push (h : Desk.Suits R ledger.key) (kind : String) (payload : Value) :
    Respects R (push kind payload).run :=
  Ledger.respects_add h fun uuid now => .make kind payload now uuid

theorem respects_perform (h : Desk.Suits R ledger.key) (r : Request) :
    Respects R r.perform.run := by
  cases r with
  | push kind payload => exact (respects_push h kind payload).bindExcept fun _ => .pure _
  | list =>
    have hlist : Respects R list.run := (Ledger.respects_read h).bindExcept fun _ => .pure _
    exact hlist.bindExcept fun _ => .pure _
  | clear => exact (Ledger.respects_clear h).bindExcept fun _ => .pure _

end Chain

namespace Payments

/-- What may be asked of the payment store. -/
inductive Request where
  | create (amountCents : UInt64) (currency : Option String) (metadata : Option Members)
  | confirm (id : String)
  | fail (id : String)
  | list
  | clear

inductive Response where
  | session (s : Session)
  | settled (s : Option Session)
  | sessions (ss : List Session)
  | done
deriving DecidableEq

def Request.perform : Request → Action Response
  | .create amountCents currency metadata =>
    return .session (← Payments.create amountCents currency metadata)
  | .confirm id => return .settled (← Payments.confirm id)
  | .fail id => return .settled (← Payments.fail id)
  | .list => return .sessions (← Payments.list)
  | .clear => do
    Payments.clear
    return .done

theorem respects_create (h : Desk.Suits R ledger.key) (amountCents : UInt64)
    (currency : Option String) (metadata : Option Members) :
    Respects R (create amountCents currency metadata).run :=
  Ledger.respects_add h fun uuid now =>
    .make amountCents (currency.getD defaultCurrency) metadata now uuid

theorem respects_confirm (h : Desk.Suits R ledger.key) (id : String) :
    Respects R (confirm id).run :=
  Ledger.respects_update h _

theorem respects_perform (h : Desk.Suits R ledger.key) (r : Request) :
    Respects R r.perform.run := by
  cases r with
  | create amountCents currency metadata =>
    exact (respects_create h amountCents currency metadata).bindExcept fun _ => .pure _
  | confirm id => exact (respects_confirm h id).bindExcept fun _ => .pure _
  | fail id =>
    have hfail : Respects R (fail id).run := Ledger.respects_update h _
    exact hfail.bindExcept fun _ => .pure _
  | list =>
    have hlist : Respects R list.run := (Ledger.respects_read h).bindExcept fun _ => .pure _
    exact hlist.bindExcept fun _ => .pure _
  | clear => exact (Ledger.respects_clear h).bindExcept fun _ => .pure _

end Payments

end PageScript
