import PageScript.Proofs.Store.Recording
import PageScript.Runner

/-!
# What an observer can bring about

Whatever an observer does, a run works on the desk in the same way: `Observer.hear` says what the
record of a run is for an observer, given the record `w` of the run that nobody refuses anything,
and in which state it leaves the observer.  It adds to `w` one log call after each refused call of
another hook, and nothing else.

A computation of a runner is `Uniform` when it comes, at each desk, to one result, one desk and
one such record `w`, the same for all observers.  Telling an observer something is uniform, so is
every action at the desk (`Desk.Blind`: none of them looks at the record), and uniform steps
compose.
-/

namespace PageScript

variable {σ α β : Type}

namespace HookCall

/-- What an observer is told after it refused a call. -/
def refusal (c : HookCall) (reason : String) : HookCall :=
  .log ("Handler for " ++ c.hook ++ " failed: " ++ reason)

end HookCall

def Occurrence.isUnheard : Occurrence → Bool
  | .hook _ => false
  | _ => true

/-- None of these is a hook call. -/
def Unheard (w : List Occurrence) : Prop :=
  ∀ y ∈ w, ∀ c, y ≠ .hook c

theorem Unheard.append {v w : List Occurrence} (hv : Unheard v) (hw : Unheard w) :
    Unheard (v ++ w) :=
  List.forall_mem_append.2 ⟨hv, hw⟩

namespace Observer

/-- The calls made to tell an observer something, and the state they leave it in. -/
def answer (o : Observer σ) (c : HookCall) (t : σ) : List HookCall × σ :=
  match o.respond c t with
  | (.ok (), t) => ([c], t)
  | (.error reason, t) =>
    if c.isLog then ([c], t)
    else ([c, c.refusal reason], (o.respond (c.refusal reason) t).2)

/-- The record of a run for an observer, from the record of the run that nobody refuses anything. -/
def hear (o : Observer σ) : List Occurrence → σ → List Occurrence × σ
  | [], t => ([], t)
  | .hook c :: rest, t =>
    let (calls, t) := o.answer c t
    let (heard, t) := hear o rest t
    (calls.map .hook ++ heard, t)
  | x :: rest, t =>
    let (heard, t) := hear o rest t
    (x :: heard, t)

theorem hear_hook (o : Observer σ) (c : HookCall) (rest : List Occurrence) (t : σ) :
    o.hear (.hook c :: rest) t =
      ((o.answer c t).1.map .hook ++ (o.hear rest (o.answer c t).2).1,
        (o.hear rest (o.answer c t).2).2) := rfl

theorem hear_cons_of_not_hook (o : Observer σ) {x : Occurrence} (h : ∀ c, x ≠ .hook c)
    (rest : List Occurrence) (t : σ) :
    o.hear (x :: rest) t = (x :: (o.hear rest t).1, (o.hear rest t).2) := by
  cases x with
  | hook c => exact absurd rfl (h c)
  | loaded | loadFailed | saved | saveFailed | pause => rfl

theorem hear_append (o : Observer σ) (v w : List Occurrence) (t : σ) :
    o.hear (v ++ w) t =
      ((o.hear v t).1 ++ (o.hear w (o.hear v t).2).1, (o.hear w (o.hear v t).2).2) := by
  induction v generalizing t with
  | nil => rfl
  | cons x v ih =>
    cases x with
    | hook c => simp only [List.cons_append, hear_hook, ih, List.append_assoc]
    | loaded | loadFailed | saved | saveFailed | pause =>
      simp only [List.cons_append, hear, ih]

theorem hear_of_unheard (o : Observer σ) {w : List Occurrence} (h : Unheard w) (t : σ) :
    o.hear w t = (w, t) := by
  induction w with
  | nil => rfl
  | cons x w ih =>
    rw [hear_cons_of_not_hook o (h x List.mem_cons_self),
      ih fun y hy => h y (List.mem_cons_of_mem _ hy)]

/-- An observer that refuses no call, in whatever state it is. -/
def Accepting (o : Observer σ) : Prop :=
  ∀ c t, (o.respond c t).1 = .ok ()

theorem hear_of_accepting {o : Observer σ} (h : o.Accepting) (w : List Occurrence) (t : σ) :
    (o.hear w t).1 = w := by
  induction w generalizing t with
  | nil => rfl
  | cons x w ih =>
    cases x with
    | hook c =>
      have hc : (o.answer c t).1 = [c] := by
        rw [answer]
        rcases hr : o.respond c t with ⟨_ | _, _⟩
        · have := h c t
          rw [hr] at this
          cases this
        · rfl
      rw [hear_hook, hc, ih]
      rfl
    | loaded | loadFailed | saved | saveFailed | pause => simp only [hear, ih]

/-- Where the hook calls are left out, nothing can be told of the observer. -/
theorem filter_hear (o : Observer σ) {p : Occurrence → Bool} (hp : ∀ c, p (.hook c) = false)
    (w : List Occurrence) (t : σ) : (o.hear w t).1.filter p = w.filter p := by
  induction w generalizing t with
  | nil => rfl
  | cons x w ih =>
    cases x with
    | hook c =>
      have hcalls : ((o.answer c t).1.map Occurrence.hook).filter p = [] := by
        simp [List.filter_eq_nil_iff, hp]
      rw [hear_hook, List.filter_append, hcalls, ih]
      simp [hp]
    | loaded | loadFailed | saved | saveFailed | pause =>
      simp only [hear, List.filter_cons, ih]

end Observer

namespace Desk

/-- A desk but for the hook calls on record. -/
def unobserved (d : Desk) : Desk :=
  { d with record := d.record.filter Occurrence.isUnheard }

/-- A computation at a desk that adds to the record, no hook call, and does not look at it. -/
def Blind (x : StateM Desk α) : Prop :=
  ∀ d : Desk, ∃ (a : α) (q : Desk) (w : List Occurrence), Unheard w ∧
    ∀ record, x { d with record } = (a, { q with record := record ++ w })

theorem Blind.pure (a : α) : Blind (Pure.pure a) :=
  fun d => ⟨a, d, [], by simp [Unheard], fun record => by simp; rfl⟩

theorem Blind.bind {x : StateM Desk α} {f : α → StateM Desk β} (hx : Blind x)
    (hf : ∀ a, Blind (f a)) : Blind (x >>= f) := by
  intro d
  obtain ⟨a, q, w, hw, hx⟩ := hx d
  obtain ⟨b, q', w', hw', hf⟩ := hf a q
  refine ⟨b, q', w ++ w', fun y hy => ?_, fun record => ?_⟩
  · exact (List.mem_append.1 hy).elim (hw y) (hw' y)
  · rw [bind_apply, hx]
    simp only [hf, List.append_assoc]

theorem Blind.bindExcept {x : Action α} {f : α → Action β} (hx : Blind x.run)
    (hf : ∀ a, Blind (f a).run) : Blind (x >>= f).run := by
  rw [ExceptT.run_bind]
  refine hx.bind fun r => ?_
  rcases r with e | a
  · exact Blind.pure (Except.error e)
  · exact hf a

theorem blind_load (key : String) : Blind (load key).run := by
  intro d
  rcases hask : Fault.ask .load key d.faults with ⟨_ | f, faults⟩
  · rcases hload : d.backing.load key with e | slot
    · exact ⟨.error (.inOut (.file e)), { d with faults },
        [.loadFailed key (.inOut (.file e))], by simp [Unheard],
        fun record => by simp [load, ExceptT.run_mk, hask, hload, note]⟩
    · exact ⟨.ok slot, { d with faults }, [.loaded key], by simp [Unheard],
        fun record => by simp [load, ExceptT.run_mk, hask, hload, note]⟩
  · exact ⟨.error f, { d with faults }, [.loadFailed key f], by simp [Unheard],
      fun record => by simp [load, ExceptT.run_mk, hask, note]⟩

theorem blind_save (key : String) (content : ByteArray) : Blind (save key content).run := by
  intro d
  rcases hask : Fault.ask .save key d.faults with ⟨_ | f, faults⟩
  · rcases hsave : d.backing.save key content with e | backing
    · exact ⟨.error (.inOut (.file e)), { d with faults },
        [.saveFailed key (.inOut (.file e))], by simp [Unheard],
        fun record => by simp [save, ExceptT.run_mk, hask, hsave, note]⟩
    · exact ⟨.ok (), { d with backing, faults }, [.saved key], by simp [Unheard],
        fun record => by simp [save, ExceptT.run_mk, hask, hsave, note]⟩
  · exact ⟨.error f, { d with faults }, [.saveFailed key f], by simp [Unheard],
      fun record => by simp [save, ExceptT.run_mk, hask, note]⟩

theorem blind_drawId : Blind drawId :=
  fun d => ⟨d.ids.uuid d.ids.drawn, { d with ids := { d.ids with drawn := d.ids.drawn + 1 } }, [],
    by simp [Unheard], fun record => by simp [drawId]⟩

theorem blind_now (f : Int64 → α) : Blind (do return f (← get).now) :=
  fun d => ⟨f d.now, d, [], by simp [Unheard], fun record => by rw [List.append_nil]; rfl⟩

theorem Blind.discard {x : Action α} (hx : Blind x.run) : Blind (discard x).run := by
  rw [Functor.discard, map_const, Function.comp_apply, map_eq_pure_bind]
  exact hx.bindExcept fun _ => Blind.pure _

theorem Blind.lift {x : StateM Desk α} (hx : Blind x) :
    Blind (liftM x : Action α).run := by
  rw [ExceptT.run_liftM]
  exact hx.bind fun a => Blind.pure (Except.ok a)

end Desk

namespace Ledger

open Desk

theorem blind_read (l : Ledger α) : Blind l.read.run :=
  (blind_load l.key).bindExcept fun _ => Blind.pure _

theorem blind_append (l : Ledger α) (a : α) : Blind (l.append a).run :=
  l.blind_read.bindExcept fun _ => blind_save _ _

theorem blind_update (l : Ledger α) (change : List α → Option β × List α) :
    Blind (l.update change).run := by
  refine l.blind_read.bindExcept fun records => ?_
  rcases change records with ⟨_ | b, changed⟩
  · exact Blind.pure _
  · exact (blind_save _ _).bindExcept fun _ => Blind.pure _

end Ledger

open Desk

theorem Chain.blind_push (kind : String) (payload : Json.Value) :
    Blind (Chain.push kind payload).run := by
  have h : Blind (Chain.newEvent kind payload) :=
    blind_drawId.bind fun uuid => blind_now fun now => Event.make kind payload now uuid
  exact h.lift.bindExcept fun e => (ledger.blind_append e).bindExcept fun _ => Blind.pure _

theorem Payments.blind_create (amountCents : UInt64) (currency : Option String)
    (metadata : Option Json.Members) :
    Blind (Payments.create amountCents currency metadata).run := by
  have h : Blind (Payments.newSession amountCents currency metadata) :=
    blind_drawId.bind fun uuid => blind_now fun now =>
      Session.make amountCents (currency.getD defaultCurrency) metadata now uuid
  exact h.lift.bindExcept fun s => (ledger.blind_append s).bindExcept fun _ => Blind.pure _

theorem Payments.blind_confirm (id : String) : Blind (Payments.confirm id).run :=
  ledger.blind_update _

namespace Runner

theorem blind_openSession (amountCents : UInt64) (metadata : Json.Members) :
    Blind (openSession amountCents metadata).run :=
  (Payments.blind_create _ _ _).bindExcept fun s =>
    (Chain.blind_push "payment_session_created" s.payload).discard.bindExcept fun _ =>
      Blind.pure _

/-- A computation that comes to one result, one desk and one record, whatever the observer. -/
def Uniform (f : (σ : Type) → Observer σ → StateM (Stage σ) α) : Prop :=
  ∀ d : Desk, ∃ (a : α) (q : Desk) (w : List Occurrence),
    ∀ (σ : Type) (o : Observer σ) (t : σ) (record : List Occurrence),
      f σ o ⟨{ d with record }, t⟩ =
        (a, ⟨{ q with record := record ++ (o.hear w t).1 }, (o.hear w t).2⟩)

theorem Uniform.pure (a : α) : Uniform fun _ _ => Pure.pure a :=
  fun d => ⟨a, d, [], fun σ o t record => by simp [Observer.hear]; rfl⟩

theorem Uniform.bind {f : (σ : Type) → Observer σ → StateM (Stage σ) α}
    {g : α → (σ : Type) → Observer σ → StateM (Stage σ) β} (hf : Uniform f)
    (hg : ∀ a, Uniform (g a)) : Uniform fun σ o => f σ o >>= fun a => g a σ o := by
  intro d
  obtain ⟨a, q, w, hf⟩ := hf d
  obtain ⟨b, q', w', hg⟩ := hg a q
  refine ⟨b, q', w ++ w', fun σ o t record => ?_⟩
  change (f σ o >>= fun a => g a σ o) ⟨{ d with record }, t⟩ = _
  rw [bind_apply, hf]
  simp only [hg, Observer.hear_append, List.append_assoc]

theorem Uniform.bindExcept {f : (σ : Type) → Observer σ → ExceptT Failure (StateM (Stage σ)) α}
    {g : α → (σ : Type) → Observer σ → ExceptT Failure (StateM (Stage σ)) β}
    (hf : Uniform fun σ o => (f σ o).run) (hg : ∀ a, Uniform fun σ o => (g a σ o).run) :
    Uniform fun σ o => (f σ o >>= fun a => g a σ o).run := by
  have h : Uniform fun σ o => (f σ o).run >>= ExceptT.bindCont fun a => g a σ o := by
    refine hf.bind fun r => ?_
    rcases r with e | a
    · exact Uniform.pure (Except.error e)
    · exact hg a
  exact h

theorem Uniform.discard {f : (σ : Type) → Observer σ → ExceptT Failure (StateM (Stage σ)) α}
    (hf : Uniform fun σ o => (f σ o).run) : Uniform fun σ o => (discard (f σ o)).run := by
  have h : Uniform fun σ o => (f σ o >>= fun _ => Pure.pure ()).run :=
    hf.bindExcept fun _ => Uniform.pure (Except.ok ())
  simpa only [Functor.discard, map_const, Function.comp_apply, map_eq_pure_bind] using h

theorem atDesk_of_eq {x : Action α} {s : Stage σ} {r : Except Failure α} {q : Desk}
    (h : x.run s.desk = (r, q)) : (atDesk x).run s = (r, ⟨q, s.observer⟩) := by
  have hrun : (atDesk x).run s = ((x.run s.desk).1, ⟨(x.run s.desk).2, s.observer⟩) := rfl
  rw [hrun, h]

/-- A computation that tells an observer nothing is uniform when its part at the desk is blind. -/
theorem uniform_atDesk {x : Action α} (h : Blind x.run) :
    Uniform fun _ _ => (atDesk x).run := by
  intro d
  obtain ⟨a, q, w, hw, hx⟩ := h d
  refine ⟨a, q, w, fun σ o t record => ?_⟩
  rw [Observer.hear_of_unheard o hw]
  exact atDesk_of_eq (hx record)

theorem call_apply (o : Observer σ) (c : HookCall) (d : Desk) (t : σ) :
    call o c ⟨d, t⟩ =
      ((o.respond c t).1, ⟨d.note (.hook c), (o.respond c t).2⟩) := rfl

/-- Telling an observer something takes down the calls it comes to. -/
theorem tell_eq (o : Observer σ) (c : HookCall) (d : Desk) (t : σ) :
    tell o c ⟨d, t⟩ =
      ((), ⟨{ d with record := d.record ++ (o.answer c t).1.map .hook }, (o.answer c t).2⟩) := by
  rw [tell, bind_apply, call_apply, Observer.answer]
  rcases o.respond c t with ⟨reason | _, t'⟩
  · by_cases hc : c.isLog = true
    · simp only [hc, if_true]
      rfl
    · simp only [hc, if_false, discard_apply, call_apply, Desk.note,
        List.map_cons, List.map_nil, List.append_assoc, List.cons_append, List.nil_append,
        HookCall.refusal, Bool.false_eq_true]
  · rfl

theorem uniform_tell (c : HookCall) : Uniform fun _ o => tell o c := by
  intro d
  refine ⟨(), d, [.hook c], fun σ o t record => ?_⟩
  have hhear : o.hear [.hook c] t = ((o.answer c t).1.map .hook, (o.answer c t).2) := by
    simp [Observer.hear]
  rw [hhear]
  exact tell_eq o c { d with record } t

theorem uniform_lift {f : (σ : Type) → Observer σ → StateM (Stage σ) α} (h : Uniform f) :
    Uniform fun σ o => (liftM (f σ o) : ExceptT Failure (StateM (Stage σ)) α).run := by
  have h' : Uniform fun σ o => do
      let a ← f σ o
      return (Except.ok a : Except Failure α) :=
    h.bind fun a => Uniform.pure (Except.ok a)
  exact h'

theorem uniform_pause : Uniform fun _ _ => pause :=
  fun d => ⟨(), d, [.pause], fun _ _ _ _ => rfl⟩

theorem uniform_say (message : String) : Uniform fun _ o => say o message :=
  uniform_tell (.log message)

theorem uniform_perform (e : Effect) : Uniform fun _ o => (perform o e).run := by
  have told (c : HookCall) {x : Action Event} (h : Blind x.run) :
      Uniform fun σ (o : Observer σ) => (do tell o c; discard <| atDesk x :
        ExceptT Failure (StateM (Stage σ)) Unit).run :=
    (uniform_lift (uniform_tell c)).bindExcept fun _ => (uniform_atDesk h).discard
  cases e with
  | log message => exact told _ (Chain.blind_push _ _)
  | addWatermark page text => exact told _ (Chain.blind_push _ _)
  | highlightText text => exact told _ (Chain.blind_push _ _)
  | mintNft metadata => exact told _ (Chain.blind_push _ _)
  | lockPages pages price =>
    exact (uniform_lift (uniform_tell _)).bindExcept fun _ =>
      (uniform_atDesk (blind_openSession _ _)).bindExcept fun s =>
        uniform_lift (uniform_say _)
  | runPayment price reason =>
    exact (uniform_atDesk (blind_openSession _ _)).bindExcept fun s =>
      uniform_lift (uniform_say _)
  | unknown op => exact uniform_lift (uniform_say _)

theorem uniform_step (e : Effect) : Uniform fun _ o => step o e := by
  refine uniform_pause.bind fun _ => (uniform_perform e).bind fun r => ?_
  rcases r with failure | _
  · exact uniform_say _
  · exact Uniform.pure ()

theorem uniform_steps (effects : List Effect) : Uniform fun _ o => steps o effects := by
  induction effects with
  | nil => exact Uniform.pure ()
  | cons e rest ih => exact (uniform_step e).bind fun _ => ih

theorem uniform_execute (plan : Plan) : Uniform fun _ o => execute o plan := by
  have h : Uniform fun σ (o : Observer σ) => (do steps o plan.effects; return plan) :=
    (uniform_steps plan.effects).bind fun _ => Uniform.pure plan
  rcases plan with ⟨success, effects, _ | explanation⟩
  · exact (Uniform.pure ()).bind fun _ => h
  · exact (uniform_say _).bind fun _ => h

theorem uniform_confirmPayment (id : String) :
    Uniform fun _ o => (confirmPayment o id).run := by
  refine (uniform_lift (uniform_say _)).bindExcept fun _ =>
    (uniform_atDesk (Payments.blind_confirm id)).bindExcept fun confirmed => ?_
  rcases confirmed with _ | session
  · exact (uniform_lift (uniform_say _)).bindExcept fun _ => Uniform.pure (Except.ok none)
  · exact (uniform_lift (uniform_say _)).bindExcept fun _ =>
      (Uniform.discard (uniform_atDesk (Chain.blind_push _ _))).bindExcept fun _ =>
        Uniform.pure (Except.ok (some session))

/-- Two runs return the same and leave the same desks, but for the hook calls on record. -/
def SameButCalls {σ₁ σ₂ : Type} (r₁ : α × Stage σ₁) (r₂ : α × Stage σ₂) : Prop :=
  r₁.1 = r₂.1 ∧ r₁.2.desk.unobserved = r₂.2.desk.unobserved

/-- From the desk `d` on, the run that ended in `s` took down for `o` what the run that ended in
`s₀` took down for an observer that refuses nothing. -/
def HeardAs {σ₀ : Type} (o : Observer σ) (d : Desk) (t : σ) (s₀ : Stage σ₀) (s : Stage σ) : Prop :=
  ∃ w, s₀.desk.record = d.record ++ w ∧ s.desk.record = d.record ++ (o.hear w t).1 ∧
    s.observer = (o.hear w t).2

theorem Uniform.same {f : (σ : Type) → Observer σ → StateM (Stage σ) α} (hf : Uniform f)
    {σ₁ σ₂ : Type} (o₁ : Observer σ₁) (o₂ : Observer σ₂) (d : Desk) (t₁ : σ₁) (t₂ : σ₂) :
    SameButCalls (f σ₁ o₁ ⟨d, t₁⟩) (f σ₂ o₂ ⟨d, t₂⟩) := by
  obtain ⟨a, q, w, hf⟩ := hf d
  have h₁ := hf σ₁ o₁ t₁ d.record
  have h₂ := hf σ₂ o₂ t₂ d.record
  refine ⟨by rw [h₁, h₂], ?_⟩
  rw [h₁, h₂]
  have hhook : ∀ c, (Occurrence.hook c).isUnheard = false := fun _ => rfl
  simp only [Desk.unobserved, List.filter_append, Observer.filter_hear _ hhook]

theorem Uniform.heardAs {f : (σ : Type) → Observer σ → StateM (Stage σ) α} (hf : Uniform f)
    {σ₀ : Type} {o₀ : Observer σ₀} (h₀ : o₀.Accepting) (o : Observer σ) (d : Desk) (t₀ : σ₀)
    (t : σ) : HeardAs o d t (f σ₀ o₀ ⟨d, t₀⟩).2 (f σ o ⟨d, t⟩).2 := by
  obtain ⟨a, q, w, hf⟩ := hf d
  have hr := hf σ o t d.record
  have hr₀ := hf σ₀ o₀ t₀ d.record
  rw [Observer.hear_of_accepting h₀] at hr₀
  exact ⟨w, by rw [hr₀], by rw [hr], by rw [hr]⟩

/-- No observer has a say in what a plan or a confirmation comes to: only the hook calls depend on
it, and they are those made for an observer that refuses nothing, with a log call after each
refused call of another hook. -/
theorem observer_has_no_say {σ₀ σ₁ σ₂ : Type} {o₀ : Observer σ₀} (h₀ : o₀.Accepting)
    (o₁ : Observer σ₁) (o₂ : Observer σ₂) (d : Desk) (t₀ : σ₀) (t₁ : σ₁) (t₂ : σ₂)
    (plan : Plan) (id : String) :
    (SameButCalls (execute o₁ plan ⟨d, t₁⟩) (execute o₂ plan ⟨d, t₂⟩) ∧
      HeardAs o₁ d t₁ (execute o₀ plan ⟨d, t₀⟩).2 (execute o₁ plan ⟨d, t₁⟩).2) ∧
    (SameButCalls ((confirmPayment o₁ id).run ⟨d, t₁⟩) ((confirmPayment o₂ id).run ⟨d, t₂⟩) ∧
      HeardAs o₁ d t₁ ((confirmPayment o₀ id).run ⟨d, t₀⟩).2
        ((confirmPayment o₁ id).run ⟨d, t₁⟩).2) :=
  ⟨⟨(uniform_execute plan).same o₁ o₂ d t₁ t₂, (uniform_execute plan).heardAs h₀ o₁ d t₀ t₁⟩,
    (uniform_confirmPayment id).same o₁ o₂ d t₁ t₂,
    (uniform_confirmPayment id).heardAs h₀ o₁ d t₀ t₁⟩

theorem observer_has_no_say_refused_highlight :
    let d : Desk := ⟨.memory [], [], 0, ⟨fun n => String.ofList (List.replicate n 'a'), 0⟩, []⟩
    let plan : Plan := ⟨true, [.highlightText "clause", .runPayment 100 none], none⟩
    let o := Observer.refusing ["highlight", "log"]
    Observer.silent.Accepting ∧
      HeardAs o d () (execute .silent plan ⟨d, ()⟩).2 (execute o plan ⟨d, ()⟩).2 ∧
      (execute o plan ⟨d, ()⟩).2.desk.record =
        [.pause, .hook (.highlight "clause"),
          .hook (.log "Handler for highlight failed: highlight refused"),
          .loaded "pdfx_mock_chain", .saved "pdfx_mock_chain", .pause,
          .loaded "pdfx_mock_payments", .saved "pdfx_mock_payments",
          .loaded "pdfx_mock_chain", .saved "pdfx_mock_chain",
          .hook (.log "Mock payment created mockpay_0_a")] ∧
      SameButCalls ((confirmPayment o "x").run ⟨d, ()⟩)
        ((confirmPayment .silent "x").run ⟨d, ()⟩) := by
  intro d plan o
  have h₀ : Observer.silent.Accepting := fun _ _ => rfl
  have h := observer_has_no_say h₀ o .silent d () () () plan "x"
  exact ⟨h₀, h.1.2, by decide +kernel, h.2.1⟩

end Runner

end PageScript
