import PageScript.Proofs.CommandLine.Commands

/-!
# Refused invocations

Opening a store makes folders and touches no file (`Files.sameFiles_opened`).  Where the folder can
be opened and what is in the slots are files, no access fails, so that an invocation comes to what
its command does (`Files.invoke_eq`).  It leaves all files as they were if it fails or only looks,
and which of the others fail is said for runs, confirmations and failures of sessions
(`Files.refusal_changes_nothing`).
-/

namespace PageScript

namespace Source

/-- The script that a source names, where there are these files and this is the input. -/
inductive Gives (f : Files) (input : ByteArray) : Source → String → Prop
  | preset {p : Script.Preset} (hp : p ∈ Script.Preset.all) : Gives f input (.preset p.id) p.code
  | file {path script : String} (h : f.read (.ofString path) = .ok script.toUTF8) :
    Gives f input (.file path) script
  | input {script : String} (h : input = script.toUTF8) : Gives f input .input script

theorem fromUTF8?_eq_some {bytes : ByteArray} {s : String} :
    String.fromUTF8? bytes = some s ↔ bytes = s.toUTF8 := by
  constructor
  · intro h
    rw [String.fromUTF8?] at h
    split_ifs at h
    rw [← Option.some.inj h]
    rfl
  · rintro rfl
    exact dif_pos s.isValidUTF8

theorem load_preset_iff {id script : String} {content : Except FileError ByteArray} :
    (Source.preset id).load content = .ok script ↔
      ∃ p ∈ Script.Preset.all, p.id = id ∧ p.code = script := by
  rw [load, Script.Preset.find?]
  constructor
  · intro h
    split at h
    · rename_i p hp
      exact ⟨p, List.mem_of_find?_eq_some hp, by simpa using List.find?_some hp, Except.ok.inj h⟩
    · cases h
  · rintro ⟨p, hp, rfl, rfl⟩
    simp only [Script.Preset.all, List.mem_cons, List.not_mem_nil, or_false] at hp
    rcases hp with rfl | rfl | rfl | rfl <;> rfl

theorem load_input_iff {script : String} {content : Except FileError ByteArray} :
    Source.input.load content = .ok script ↔ content = .ok script.toUTF8 := by
  rcases content with e | bytes
  · exact ⟨nofun, nofun⟩
  · rw [Except.ok.injEq, ← fromUTF8?_eq_some, load]
    simp only [bind, Except.bind, Except.mapError]
    rcases String.fromUTF8? bytes with _ | script'
    · exact ⟨nofun, nofun⟩
    · simp

end Source

namespace Files

variable {f : Files} {i : Invocation}

/-- The folder is there or can be made, and what is in the two slots are files, if anything. -/
def Openable (f : Files) (folder : Path) : Prop :=
  ∃ opened, makeFolders folder f = (.ok (), opened) ∧ ∀ slot : Slot,
    opened.find (Backing.slotPath folder slot.key) = .error .notFound ∨
      ∃ content, opened.find (Backing.slotPath folder slot.key) = .ok (.file content)

/-- The files when the store of an invocation has been opened. -/
def opened (f : Files) (i : Invocation) : Files :=
  ((openStore i).run f).2

/-- The backing that an invocation works with. -/
def backingFor (f : Files) (i : Invocation) : Backing :=
  match i.folder with
  | none => .memory []
  | some path => .files (f.opened i) (.ofString path)

/-- The desk that an invocation begins at. -/
def deskFor (f : Files) (i : Invocation) (now : Int64) (ids : IdSource) : Desk :=
  ⟨f.backingFor i, [], now, ids, []⟩

/-- The exit status.  A request for help or for the version has that of a usage error here, though
the program succeeds with it: neither names a command, and no file is touched. -/
def Invoked.status (r : Invoked) : Nat :=
  match r.outcome with
  | none => Invocation.usageStatus
  | some outcome => outcome.reply.status

theorem openStore_apply (i : Invocation) (f : Files) :
    openStore i f =
      ((makeFolders (.ofString (i.folder.getD "")) f).1.map fun _ =>
        .files (f.opened i) (.ofString (i.folder.getD "")), f.opened i) := by
  rw [opened, StateT.run, openStore, bind_apply]
  rcases makeFolders (.ofString (i.folder.getD "")) f with ⟨_ | _, f'⟩ <;> rfl

theorem opened_eq (f : Files) (i : Invocation) :
    f.opened i = (makeFolders (.ofString (i.folder.getD "")) f).2 := by
  rw [opened, StateT.run, openStore, bind_apply]
  rcases makeFolders (.ofString (i.folder.getD "")) f with ⟨_ | _, f'⟩ <;> rfl

/-- Opening a store touches no file. -/
theorem sameFiles_opened (f : Files) (i : Invocation) : f.SameFiles (f.opened i) := by
  rw [opened_eq]
  exact (tries_makeFolders _ f).sameFiles

theorem serves_backingFor (h : ∀ path, i.folder = some path → f.Openable (.ofString path))
    (slot : Slot) : (f.backingFor i).Serves slot.key := by
  unfold backingFor
  rcases hfolder : i.folder with _ | path
  · exact Backing.serves_memory [] slot.key
  obtain ⟨opened, hmake, hslots⟩ := h path hfolder
  have hopened : f.opened i = opened := by rw [opened_eq, hfolder, Option.getD_some, hmake]
  have hthere := isFolder_of_makeFolders hmake
  simp only [hopened]
  rcases hslots slot with hfind | ⟨content, hfind⟩
  · exact Backing.serves_of_load slot.isSlotName hthere (Backing.load_of_find hfind)
  · exact Backing.serves_of_load slot.isSlotName hthere (Backing.load_of_find_file hfind)

theorem backing_openStore (h : ∀ path, i.folder = some path → f.Openable (.ofString path))
    (content : Except FileError ByteArray) (now : Int64) (ids : IdSource) :
    i.backing ⟨content, (openStore i f).1, now, ids⟩ = .ok (f.backingFor i) := by
  unfold Invocation.backing backingFor
  rcases hfolder : i.folder with _ | path
  · rfl
  · obtain ⟨opened, hmake, -⟩ := h path hfolder
    simp only [openStore_apply, hfolder, Option.getD_some, hmake]
    rfl

theorem getD_backingFor (f : Files) (i : Invocation) :
    (f.backingFor i).files?.getD (f.opened i) = f.opened i := by
  unfold backingFor
  rcases i.folder with _ | path <;> rfl

theorem smooth_deskFor (h : ∀ path, i.folder = some path → f.Openable (.ofString path))
    (now : Int64) (ids : IdSource) : (f.deskFor i now ids).Smooth :=
  ⟨rfl, serves_backingFor h, List.forall_mem_nil _⟩

theorem invoke_eq {args : List String} {env : Invocation.Environment}
    (hi : Invocation.ofArguments? env args = some i)
    (h : ∀ path, i.folder = some path → f.Openable (.ofString path)) (input : ByteArray)
    (now : Int64) (ids : IdSource) :
    f.invoke args env input now ids =
      let (reply, desk) :=
        i.command.perform ((f.opened i).contentFor input i) (f.deskFor i now ids)
      ⟨some ⟨reply, i.folder.isSome, some desk.backing, desk.ids⟩,
        desk.backing.files?.getD (f.opened i), desk.ids⟩ := by
  have hbacking := backing_openStore h ((f.opened i).contentFor input i) now ids
  have hopened : (openStore i).run f = ((openStore i f).1, f.opened i) := rfl
  simp only [invoke, hi, hopened, Invocation.perform, hbacking]
  rfl

/-- The payments slot can be read, and the first session with the id in it is pending. -/
def HasPending (f : Files) (i : Invocation) (id : String) : Prop :=
  ∃ path bytes sessions s, i.folder = some path ∧
    (f.opened i).read (Backing.slotPath (.ofString path) Payments.ledger.key) = .ok bytes ∧
    Session.format.decode? bytes = some sessions ∧
    sessions.find? (·.id = id) = some s ∧ s.status = .pending

theorem hasPending_iff {id : String} :
    f.HasPending i id ↔ ∃ s, (Payments.ledger.records (f.backingFor i)).find? (·.id = id) = some s ∧
      s.status = .pending := by
  constructor
  · rintro ⟨path, bytes, sessions, s, hfolder, hread, hdecode, hfind, hs⟩
    have hbacking : f.backingFor i = .files (f.opened i) (.ofString path) := by
      rw [backingFor, hfolder]
    have hrecords : Payments.ledger.records (f.backingFor i) = sessions := by
      rw [hbacking, Ledger.records, Backing.load_of_read hread]
      exact congrArg (·.getD []) hdecode
    exact ⟨s, by rwa [hrecords], hs⟩
  · rintro ⟨s, hfind, hs⟩
    have hne : Payments.ledger.records (f.backingFor i) ≠ [] := by
      intro hnil
      simp [hnil] at hfind
    rcases hfolder : i.folder with _ | path
    · have hbacking : f.backingFor i = .memory [] := by rw [backingFor, hfolder]
      exact absurd (by rw [hbacking]; rfl) hne
    have hbacking : f.backingFor i = .files (f.opened i) (.ofString path) := by
      rw [backingFor, hfolder]
    rw [hbacking, Ledger.records] at hfind hne
    rcases hread : (f.opened i).read (Backing.slotPath (.ofString path) Payments.ledger.key) with
      e | bytes <;> rw [Backing.load_of_read hread] at hfind hne
    · cases e <;> exact absurd rfl hne
    rcases hdecode : Session.format.decode? bytes with _ | sessions
    · exact absurd (congrArg (·.getD []) hdecode) hne
    · have hview : Payments.ledger.view (some bytes) = sessions := congrArg (·.getD []) hdecode
      exact ⟨path, bytes, sessions, s, hfolder, hread, hdecode, hview ▸ hfind, hs⟩

theorem gives_iff {source : Source} (hsource : i.command.source? = some source) {input : ByteArray}
    {script : String} :
    source.Gives f input script ↔ source.load (f.contentFor input i) = .ok script := by
  cases source with
  | preset id =>
    rw [Source.load_preset_iff]
    constructor
    · rintro ⟨hp⟩
      exact ⟨_, hp, rfl, rfl⟩
    · rintro ⟨p, hp, rfl, rfl⟩
      exact .preset hp
  | file path =>
    have hcontent : f.contentFor input i = f.read (.ofString path) := by
      rw [contentFor, Invocation.scriptPath?, hsource]
    have hload : (Source.file path).load (f.contentFor input i) =
        Source.input.load (f.contentFor input i) := rfl
    rw [hload, Source.load_input_iff, hcontent]
    exact ⟨fun h => by cases h with | file h => exact h, .file⟩
  | input =>
    have hcontent : f.contentFor input i = .ok input := by
      rw [contentFor, Invocation.scriptPath?, hsource]
    rw [Source.load_input_iff, hcontent, Except.ok.injEq]
    exact ⟨fun h => by cases h with | input h => exact h, .input⟩

/-- An invocation is refused and leaves all files as they were, or it succeeds, and leaves them as
they were if it only looks. -/
theorem invoke_ends {args : List String} {env : Invocation.Environment}
    (hi : Invocation.ofArguments? env args = some i)
    (h : ∀ path, i.folder = some path → f.Openable (.ofString path)) (input : ByteArray)
    (now : Int64) (ids : IdSource) :
    ((f.invoke args env input now ids).status = 0 ↔
      i.command.Accepts ((f.opened i).contentFor input i) (f.backingFor i)) ∧
    ((f.invoke args env input now ids).status ≠ 0 ∨ i.command.readsOnly = true →
      f.SameFiles (f.invoke args env input now ids).files) := by
  have hends := i.command.ends_perform ((f.opened i).contentFor input i) (smooth_deskFor h now ids)
  have hsame : ∀ b, b = f.backingFor i → f.SameFiles (b.files?.getD (f.opened i)) := by
    rintro _ rfl
    rw [getD_backingFor]
    exact f.sameFiles_opened i
  rw [invoke_eq hi h]
  rcases hperform : i.command.perform ((f.opened i).contentFor input i) (f.deskFor i now ids) with
    ⟨reply, desk⟩
  rw [hperform] at hends
  cases hends with
  | refused hc hr hb =>
    have hstatus : reply.status = 1 := by simp [Reply.status, hr]
    have hne : reply.status ≠ 0 := by simp [hstatus]
    exact ⟨⟨fun h0 => absurd h0 hne, fun ha => absurd ha hc⟩, fun _ => hsame _ hb⟩
  | accepted hc hr hb =>
    have hstatus : reply.status = 0 := by simp [Reply.status, hr]
    refine ⟨⟨fun _ => hc, fun _ => hstatus⟩, fun hor => hsame _ (hb ?_)⟩
    exact hor.resolve_left fun hne => hne hstatus

/-- Where the folder of the store can be opened, an invocation that fails leaves all files as they
were, and so does one that only looks.  Confirming and failing a session succeeds exactly when the
first one with the id is pending, and a run when there is a script to load that is not blank. -/
theorem refusal_changes_nothing (f : Files) (args : List String) (env : Invocation.Environment)
    (input : ByteArray) (now : Int64) (ids : IdSource)
    (hopen : ∀ i path, Invocation.ofArguments? env args = some i → i.folder = some path →
      f.Openable (.ofString path)) :
    let r := f.invoke args env input now ids
    (r.status ≠ 0 → f.SameFiles r.files) ∧
    ∀ i, Invocation.ofArguments? env args = some i →
      (i.command.readsOnly = true → f.SameFiles r.files) ∧
      (∀ id, i.command = .confirm id ∨ i.command = .fail id →
        (r.status = 0 ↔ f.HasPending i id)) ∧
      ∀ source delay, i.command = .run source delay →
        (r.status = 0 ↔ ∃ script, source.Gives (f.opened i) input script ∧
          ∃ c ∈ script.toList, Text.isBlank c = false) := by
  intro r
  have hsome (i : Invocation) (hi : Invocation.ofArguments? env args = some i) :=
    invoke_ends hi (fun path => hopen i path hi) input now ids
  refine ⟨fun hr => ?_, fun i hi => ?_⟩
  · rcases hi : Invocation.ofArguments? env args with _ | i
    · have hfiles : r.files = f := by simp only [r, invoke, hi]
      rw [hfiles]
      exact .refl f
    · exact (hsome i hi).2 (.inl hr)
  obtain ⟨hstatus, hsame⟩ := hsome i hi
  refine ⟨fun hlook => hsame (.inr hlook), fun id hc => ?_, fun source delay hc => ?_⟩
  · rw [hasPending_iff]
    rcases hc with hc | hc <;> rw [hc] at hstatus <;> exact hstatus
  · have hsource : i.command.source? = some source := by rw [hc]; rfl
    rw [hc] at hstatus
    rw [hstatus]
    refine exists_congr fun script => ?_
    rw [gives_iff hsource, Text.allBlank, List.all_eq_false]
    simp only [Bool.not_eq_true]

/-- A session cannot be failed when the payments slot cannot be read. -/
theorem refusal_changes_nothing_spoilt_payments :
    let f : Files := ⟨[("db", .folder [("pdfx_mock_payments.json", .file "\x7b".toUTF8)])], []⟩
    let args := ["payments", "fail", "x"]
    let env := [("PDFX_DB_PATH", "db")]
    let r := f.invoke args env .empty 0 (.countingFrom 0)
    (∀ i path, Invocation.ofArguments? env args = some i → i.folder = some path →
        f.Openable (.ofString path)) ∧
      r.status ≠ 0 ∧ f.SameFiles r.files := by
  intro f args env r
  have hi : Invocation.ofArguments? env args = some ⟨some "db", .fail "x"⟩ := by
    have hx : CommandLine.Level.longOption? "x" = none := by decide
    have hlook : CommandLine.Level.looksLikeOption "x" = false := by decide
    simp [args, env, Invocation.ofArguments?, Invocation.payments?, Invocation.leaf?,
      CommandLine.Level.read?, CommandLine.Level.readFrom?, CommandLine.Level.addPlace?,
      Invocation.program, Invocation.withCommands, Invocation.withPlaces, Invocation.onePlace?,
      Invocation.folder?, Invocation.folderVariable, Table.get?, hx, hlook]
  have hfolder : Path.ofString "db" = ⟨false, ["db"]⟩ := by decide
  have hmake : makeFolders ⟨false, ["db"]⟩ f = (.ok (), f) :=
    makeFolders_of_isFolder (by simp only [f]; rfl)
  have hopen : ∀ i path, Invocation.ofArguments? env args = some i → i.folder = some path →
      f.Openable (.ofString path) := by
    intro i path h hpath
    rw [hi] at h
    cases h
    cases hpath
    rw [hfolder]
    refine ⟨f, hmake, ?_⟩
    simp only [f]
    rintro (_ | _)
    · exact .inl rfl
    · exact .inr ⟨_, rfl⟩
  have h := refusal_changes_nothing f args env .empty 0 (.countingFrom 0) hopen
  have hstatus : r.status ≠ 0 := by
    intro h0
    obtain ⟨path, bytes, sessions, s, hpath, hread, hdecode, -⟩ :=
      ((h.2 _ hi).2.1 "x" (.inr rfl)).1 h0
    cases hpath
    rw [opened_eq, Option.getD_some, hfolder, hmake] at hread
    simp only [f] at hread
    cases hread
    cases hdecode
  exact ⟨hopen, hstatus, h.1 hstatus⟩

end Files

end PageScript
