import PageScript.Proofs.Runner.Related

/-!
# Memory and files

Two desks that differ in their backings only, and cannot be told apart by what becomes of the slots
of the two stores, are twins (`Twins`).  Every operation answers the same at twins and leaves twins
(`Operation.respects_perform`).  Memory and a folder where nothing is in the two slots are twins to
begin with.  When its folder is there, opening the store again makes nothing
(`Backing.Opened.reopen`).  So nothing that is done, in whatever order, tells where the slots are
kept, and how often the store was opened (`backings_interchangeable`).
-/

namespace PageScript

namespace Backing

variable {b b' : Backing} {folder : Path} {key : String}

/-- Opens a store again where it is kept, which makes the folder if it is not there. -/
def reopen : Backing → Except FileError Backing
  | .memory slots => .ok (.memory slots)
  | .files f folder =>
    match Files.makeFolders folder f with
    | (.ok (), f) => .ok (.files f folder)
    | (.error e, _) => .error e

/-- The backing is kept in the folder, and the folder is there. -/
def Opened (folder : Path) (b : Backing) : Prop :=
  ∃ f, b = .files f folder ∧ (folder.isEmpty = true ∨ f.isFolder folder = true)

theorem Opened.save {content : ByteArray} (h : b.Opened folder) (hk : IsSlotName key)
    (hsave : b.save key content = .ok b') : b'.Opened folder := by
  obtain ⟨f, rfl, hfolder⟩ := h
  obtain ⟨place, g, -, hg, hnot, -, -, rfl⟩ := save_files hk hsave
  exact ⟨_, rfl, hfolder.imp_right
    (Files.isFolder_of_keeps (Folder.keeps_putNode hg hnot (.file content)) rfl)⟩

theorem Opened.reopen (h : b.Opened folder) : b.reopen = .ok b := by
  obtain ⟨f, rfl, hempty | hfolder⟩ := h
  · rw [Backing.reopen, Files.makeFolders_of_isEmpty hempty]
  · rw [Backing.reopen, Files.makeFolders_of_isFolder hfolder]

end Backing

namespace Runner

variable {σ : Type} {folder : Path}

/-- Two desks that differ in their backings only, the second of which is kept in the folder. -/
inductive Twins (folder : Path) (d : Desk) : Desk → Prop
  | intro {b : Backing} (hslots : ∀ slot : Slot, Backing.Alike slot.key d.backing b)
    (hopened : b.Opened folder) : Twins folder d { d with backing := b }

namespace Twins

variable {d d' : Desk}

theorem slots (h : Twins folder d d') (slot : Slot) :
    Backing.Alike slot.key d.backing d'.backing := by
  rcases h with ⟨hslots, hopened⟩
  exact hslots slot

theorem opened (h : Twins folder d d') : d'.backing.Opened folder := by
  rcases h with ⟨hslots, hopened⟩
  exact hopened

theorem record (h : Twins folder d d') : d.record = d'.record := by
  rcases h with ⟨hslots, hopened⟩
  rfl

/-- A change that neither looks at the backing nor touches it. -/
theorem change {f : Desk → Desk} (hf : ∀ d b, f { d with backing := b } = { f d with backing := b })
    (h : Twins folder d d') : Twins folder (f d) (f d') := by
  rcases h with @⟨b, hslots, hopened⟩
  have hb : (f d).backing = d.backing := (congrArg Desk.backing (hf d d.backing) :)
  rw [hf d b]
  exact .intro (by rwa [hb]) hopened

end Twins

/-- Saving a slot in both backings leaves both slots alike. -/
theorem alike_save {b b' n n' : Backing} {slot : Slot} {content : ByteArray}
    (h : ∀ slot : Slot, Backing.Alike slot.key b b') (hn : b.save slot.key content = .ok n)
    (hn' : b'.save slot.key content = .ok n') (other : Slot) :
    Backing.Alike other.key n n' := by
  rcases eq_or_ne other slot with rfl | hne
  · exact Backing.alike_save_self other.isSlotName hn hn'
  · have hkey := Slot.key_ne hne
    have hleft := Backing.alike_save_of_ne slot.isSlotName other.isSlotName hkey hn
    have hright := Backing.alike_save_of_ne slot.isSlotName other.isSlotName hkey hn'
    exact hleft.trans ((h other).trans hright.symm)

theorem suits_twins (folder : Path) : Suits (Twins folder) where
  hook d _ h c := by
    rcases h with ⟨hslots, hopened⟩
    exact .intro hslots hopened
  pause d _ h := by
    rcases h with ⟨hslots, hopened⟩
    exact .intro hslots hopened
  slot slot := {
    now := fun d _ h => by
      rcases h with ⟨hslots, hopened⟩
      rfl
    drawId := fun d _ h => by
      rcases h with ⟨hslots, hopened⟩
      exact ⟨rfl, .intro hslots hopened⟩
    load := fun d _ h => by
      rcases h with @⟨b, hslots, hopened⟩
      obtain ⟨r, o, hd, hd'⟩ :=
        @Desk.load_alike d { d with backing := b } slot.key rfl (hslots slot).load
      rw [hd, hd']
      exact ⟨rfl, .intro hslots hopened⟩
    save := fun content d _ h => by
      rcases h with @⟨b, hslots, hopened⟩
      rcases @Desk.save_alike d { d with backing := b } slot.key content rfl (hslots slot) with
        ⟨f, hd, hd'⟩ | ⟨n, n', hn, hn', hd, hd'⟩
      · rw [hd, hd']
        exact ⟨rfl, .intro hslots hopened⟩
      · rw [hd, hd']
        exact ⟨rfl, .intro (alike_save hslots hn hn') (hopened.save slot.isSlotName hn')⟩ }

/-- What may be done at a desk. -/
inductive Operation (σ : Type) where
  | interpret (further : List Rule) (script : String)
  | run (o : Observer σ) (further : List Rule) (script : String)
  | execute (o : Observer σ) (plan : Plan)
  | confirmPayment (o : Observer σ) (id : String)
  | chain (request : Chain.Request)
  | payments (request : Payments.Request)
  | setClock (now : Int64)
  | advance (by_ : Int64)
  | fault (f : Fault)
  | heal
  /-- Reads a slot straight from the backing. -/
  | read (slot : Slot)
  /-- Writes a slot straight to the backing. -/
  | write (slot : Slot) (content : ByteArray)

/-- What an operation comes to. -/
inductive Result where
  | plan (plan : Plan)
  | confirmation (r : Except Failure (Option Session))
  | chain (r : Except Failure Chain.Response)
  | payments (r : Except Failure Payments.Response)
  | content (r : Except FileError (Option ByteArray))
  | saved (r : Except FileError Unit)
  | done

/-- Writes a slot without asking the faults or taking anything down. -/
def put (slot : Slot) (content : ByteArray) : StateM (Stage σ) (Except FileError Unit) := fun s =>
  match s.desk.backing.save slot.key content with
  | .ok backing => (.ok (), { s with desk := { s.desk with backing } })
  | .error e => (.error e, s)

def adjust (change : Desk → Desk) : StateM (Stage σ) Unit :=
  modify fun s => { s with desk := change s.desk }

def Operation.perform : Operation σ → StateM (Stage σ) Result
  | .interpret further script =>
    return .plan (Script.interpret further (← get).desk.now script)
  | .run o further script => return .plan (← Runner.run o further script)
  | .execute o plan => return .plan (← Runner.execute o plan)
  | .confirmPayment o id => return .confirmation (← (Runner.confirmPayment o id).run)
  | .chain request => return .chain (← (atDesk request.perform).run)
  | .payments request => return .payments (← (atDesk request.perform).run)
  | .setClock now => do
    adjust fun d => { d with now }
    return .done
  | .advance by_ => do
    adjust fun d => d.advance by_
    return .done
  | .fault f => do
    adjust fun d => { d with faults := d.faults ++ [f] }
    return .done
  | .heal => do
    adjust fun d => { d with faults := [] }
    return .done
  | .read slot => return .content ((← get).desk.backing.load slot.key)
  | .write slot content => return .saved (← put slot content)

theorem respects_put (slot : Slot) (content : ByteArray) :
    Respects (OnStage (σ := σ) (Twins folder)) (put slot content) := by
  rintro ⟨d, t⟩ ⟨_, _⟩ ⟨@⟨b, hslots, hopened⟩, rfl⟩
  rcases (hslots slot).save_cases content with ⟨e, hn, hn'⟩ | ⟨n, n', hn, hn'⟩
  · rw [put, put, hn, hn']
    exact ⟨rfl, .intro hslots hopened, rfl⟩
  · rw [put, put, hn, hn']
    exact ⟨rfl, .intro (alike_save hslots hn hn') (hopened.save slot.isSlotName hn'), rfl⟩

theorem respects_adjust {change : Desk → Desk}
    (h : ∀ d b, change { d with backing := b } = { change d with backing := b }) :
    Respects (OnStage (σ := σ) (Twins folder)) (adjust change) :=
  .modify fun _ _ hs => ⟨hs.1.change h, hs.2⟩

/-- Every operation comes to the same at twins, and leaves twins. -/
theorem Operation.respects_perform (op : Operation σ) :
    Respects (OnStage (Twins folder)) op.perform := by
  have h := suits_twins folder
  cases op with
  | interpret further script =>
    exact (respects_interpret h further script).bind fun _ => .pure _
  | run o further script => exact (respects_run h o further script).bind fun _ => .pure _
  | execute o plan => exact (respects_execute h o plan).bind fun _ => .pure _
  | confirmPayment o id => exact (respects_confirmPayment h o id).bind fun _ => .pure _
  | chain request =>
    exact (respects_atDesk (Chain.respects_perform h.chain request)).bind fun _ => .pure _
  | payments request =>
    exact (respects_atDesk (Payments.respects_perform h.payments request)).bind fun _ => .pure _
  | setClock now => exact (respects_adjust fun _ _ => rfl).bind fun _ => .pure _
  | advance by_ => exact (respects_adjust fun _ _ => rfl).bind fun _ => .pure _
  | fault f => exact (respects_adjust fun _ _ => rfl).bind fun _ => .pure _
  | heal => exact (respects_adjust fun _ _ => rfl).bind fun _ => .pure _
  | read slot => exact .read fun s s' hs => by rw [(hs.1.slots slot).load]
  | write slot content => exact (respects_put slot content).bind fun _ => .pure _

/-- A step of a sequence: an operation, or the store is opened again. -/
inductive Step (σ : Type) where
  | operation (op : Operation σ)
  | reopen

def Step.isOperation : Step σ → Bool
  | .operation _ => true
  | .reopen => false

/-- What comes back of a step. -/
inductive Answer where
  /-- The result of an operation, and all that is on record by then. -/
  | result (r : Result) (record : List Occurrence)
  /-- The store could not be opened again, and nothing more is done. -/
  | lost (e : FileError)

def answers : List (Step σ) → Stage σ → List Answer
  | [], _ => []
  | .operation op :: rest, s =>
    let (r, s) := op.perform s
    .result r s.desk.record :: answers rest s
  | .reopen :: rest, s =>
    match s.desk.backing.reopen with
    | .ok backing => answers rest { s with desk := { s.desk with backing } }
    | .error e => [.lost e]

theorem answers_operation (op : Operation σ) (rest : List (Step σ)) (s : Stage σ) :
    answers (.operation op :: rest) s =
      .result (op.perform s).1 (op.perform s).2.desk.record :: answers rest (op.perform s).2 :=
  rfl

/-- Twins answer the same, also when the store of the second is opened again in between. -/
theorem answers_of_twins (steps : List (Step σ)) {s s' : Stage σ}
    (h : OnStage (Twins folder) s s') :
    answers (steps.filter Step.isOperation) s = answers steps s' := by
  induction steps generalizing s s' with
  | nil => rfl
  | cons step rest ih =>
    cases step with
    | operation op =>
      obtain ⟨hr, hs⟩ := op.respects_perform h
      rw [List.filter_cons_of_pos rfl, answers_operation, answers_operation, ih hs, hr,
        hs.1.record]
    | reopen =>
      rw [List.filter_cons_of_neg (by simp [Step.isOperation]), answers, h.1.opened.reopen]
      exact ih h

/-- Nothing that is done tells whether the slots are kept in memory or in a folder, fresh to begin
with, nor whether the store in the folder is opened again in between. -/
theorem backings_interchangeable {f f₀ : Files} {folder : Path}
    (hopen : Files.makeFolders folder f = (.ok (), f₀))
    (hfresh : ∀ slot : Slot, f₀.find (Backing.slotPath folder slot.key) = .error .notFound)
    (now : Int64) (ids : IdSource) (t : σ) :
    let memory : Stage σ := ⟨⟨.memory [], [], now, ids, []⟩, t⟩
    let files : Stage σ := ⟨⟨.files f₀ folder, [], now, ids, []⟩, t⟩
    (∀ ops : List (Operation σ),
      answers (ops.map .operation) memory = answers (ops.map .operation) files) ∧
    ∀ steps : List (Step σ),
      answers steps files = answers (steps.filter Step.isOperation) files := by
  intro memory files
  have hfolder := Files.isFolder_of_makeFolders hopen
  have hload (slot : Slot) : (Backing.files f₀ folder).load slot.key = .ok none :=
    Backing.load_of_find (hfresh slot)
  have halike (slot : Slot) : Backing.Alike slot.key (.memory []) (.files f₀ folder) := by
    have hserves := Backing.serves_of_load slot.isSlotName hfolder (hload slot)
    exact ⟨(hload slot).symm, fun content => (hserves.saving content).symm⟩
  have hopened : (Backing.files f₀ folder).Opened folder := ⟨f₀, rfl, hfolder⟩
  refine ⟨fun ops => ?_, fun steps => ?_⟩
  · have hfilter : (ops.map Step.operation).filter Step.isOperation = ops.map .operation := by
      simp [List.filter_map, Function.comp_def, Step.isOperation]
    have h : OnStage (Twins folder) memory files := ⟨.intro halike hopened, rfl⟩
    have hsame := answers_of_twins (ops.map .operation) h
    rwa [hfilter] at hsame
  · have h : OnStage (Twins folder) files files :=
      ⟨.intro (fun slot => .refl slot.key _) hopened, rfl⟩
    exact (answers_of_twins steps h).symm

/-- A session that was opened before the store was opened again, and before the other slot was
spoilt. -/
theorem backings_interchangeable_reopened :
    let folder : Path := ⟨false, ["state", "db"]⟩
    let f₀ : Files := ⟨[("state", .folder [("db", .folder [])])], []⟩
    let memory : Stage Unit := ⟨⟨.memory [], [], 7, .countingFrom 0, []⟩, ()⟩
    let files : Stage Unit := ⟨⟨.files f₀ folder, [], 7, .countingFrom 0, []⟩, ()⟩
    let open_ : Operation Unit := .payments (.create 5 none none)
    let spoil : Operation Unit := .write .chain "\x7bnot json".toUTF8
    let look : Operation Unit := .run .silent [] "lock pages 1-2"
    Files.makeFolders folder ⟨[], []⟩ = (.ok (), f₀) ∧
      (∀ slot : Slot, f₀.find (Backing.slotPath folder slot.key) = .error .notFound) ∧
      answers [.operation open_, .reopen, .operation spoil, .reopen, .operation look] files =
        answers [.operation open_, .operation spoil, .operation look] files ∧
      answers [.operation open_, .operation spoil, .operation look] memory =
        answers [.operation open_, .operation spoil, .operation look] files := by
  intro folder f₀ memory files open_ spoil look
  have hopen : Files.makeFolders folder ⟨[], []⟩ = (.ok (), f₀) := by
    simp only [folder, f₀]
    rfl
  have hfresh (slot : Slot) : f₀.find (Backing.slotPath folder slot.key) = .error .notFound := by
    simp only [folder, f₀]
    cases slot <;> rfl
  have h := backings_interchangeable hopen hfresh 7 (.countingFrom 0) ()
  exact ⟨hopen, hfresh, h.2 [.operation open_, .reopen, .operation spoil, .reopen, .operation look],
    h.1 [open_, spoil, look]⟩

end Runner

end PageScript
