import PageScript.Proofs.Store.Folders
import PageScript.Proofs.Store.Holding

/-!
# Slots that are served

`Backing.saving` is what a save comes to, but for what it leaves in the slot.  It does not depend on
what else was saved: a slot that was saved once can be saved again (`Backing.saving_save_self`), and
saving one slot makes no difference to whether another can be (`Backing.saving_save_of_ne`).

A backing serves a slot when it can be loaded and saved (`Backing.Serves`).  A folder that is there
serves every slot that can be loaded from it (`Backing.serves_of_load`).
-/

namespace PageScript

namespace Path

theorem isEmpty_of_ne_empty (absolute : Bool) (above : List String) {name : String}
    (h : name ≠ "") : (⟨absolute, above ++ [name]⟩ : Path).isEmpty = false := by
  rcases eq_or_ne above [] with rfl | ha
  · simp [isEmpty, text, h]
  · simp [isEmpty, text, String.intercalate_append_of_ne_nil ha]

/-- The parts of what is in a folder with an empty path come after none. -/
theorem above_of_isEmpty {p : Path} (h : p.isEmpty = true) : p.above = [] := by
  obtain ⟨absolute, parts⟩ := p
  rcases parts with _ | ⟨part, _ | ⟨next, rest⟩⟩
  · rfl
  · have hpart : part = "" := by
      simp [isEmpty, text] at h
      exact h.2
    simp [above, hpart]
  · simp [isEmpty, text, String.intercalate_cons_cons] at h

/-- A path is what comes above something in it, but for an empty part at its end. -/
theorem parts_eq_above (p : Path) : p.parts = p.above ∨ p.parts = p.above ++ [""] := by
  unfold above
  split_ifs with h
  · exact .inr (List.dropLast_append_getLast? "" h).symm
  · exact .inl rfl

end Path

/-- The slots of the two stores. -/
inductive Slot where
  | chain
  | payments
deriving DecidableEq

namespace Slot

def key : Slot → String
  | .chain => Chain.ledger.key
  | .payments => Payments.ledger.key

theorem isSlotName : ∀ slot : Slot, Backing.IsSlotName slot.key
  | .chain => isSlotName_chain
  | .payments => isSlotName_payments

theorem key_ne : ∀ {slot other : Slot}, other ≠ slot → other.key ≠ slot.key
  | .chain, .chain, h | .payments, .payments, h => absurd rfl h
  | .chain, .payments, _ => chain_key_ne_payments_key.symm
  | .payments, .chain, _ => chain_key_ne_payments_key

end Slot

namespace Backing

variable {key other : String} {b b' : Backing} {f : Files} {folder : Path}

/-- What saving a slot comes to, but for what is left in it. -/
def saving (b : Backing) (key : String) (content : ByteArray) : Except FileError Unit :=
  (b.save key content).map fun _ => ()

theorem saving_of_ok {content : ByteArray} (h : b.save key content = .ok b') :
    b.saving key content = .ok () := by
  rw [saving, h]
  rfl

theorem saving_of_error {content : ByteArray} {e : FileError}
    (h : b.save key content = .error e) : b.saving key content = .error e := by
  rw [saving, h]
  rfl

theorem save_of_saving {content : ByteArray} (h : b.saving key content = .ok ()) :
    ∃ b', b.save key content = .ok b' := by
  rcases hsave : b.save key content with e | b'
  · rw [saving_of_error hsave] at h
    cases h
  · exact ⟨b', rfl⟩

/-- What putting a file makes of an entry in the folder of a store. -/
def writeEntry (folder : Path) (key : String) (entry : Option Node) : Except FileError Unit := do
  Files.examine .invalidArgument (slotPath folder key)
  if Files.longestName < (fileName key).utf8ByteSize then .error .nameTooLong
  else
    match entry with
    | some (.folder _) => .error .isFolder
    | _ => .ok ()

/-- The place of the file of a slot, in a folder that is there. -/
theorem placeFor_slotPath {place : List String} {g : Folder} (hk : IsSlotName key)
    (hf : f.follow (f.start ⟨folder.absolute, folder.above⟩) folder.above = .ok place)
    (hg : f.root.node? place = some (.folder g)) :
    f.placeFor (slotPath folder key) =
      if Files.longestName < (fileName key).utf8ByteSize then .error .nameTooLong
      else .ok (some (place ++ [fileName key])) := by
  have hne : fileName key ≠ "" := fileName_ne (by decide)
  have hdots : ¬ (fileName key = "." ∨ fileName key = "..") :=
    not_or.2 ⟨fileName_ne (by decide), fileName_ne (by decide)⟩
  have hparts : (slotPath folder key).parts.reverse.dropWhile (· == "") =
      fileName key :: folder.above.reverse := by
    simp [slotPath_eq hk, hne]
  rw [Files.placeFor_of_last hparts hdots, start_slotPath hk, hf]
  simp [Except.bind, Files.isFolderAt_iff.2 ⟨g, hg⟩]

theorem saving_files {place : List String} {g : Folder} (hk : IsSlotName key)
    (hf : f.follow (f.start ⟨folder.absolute, folder.above⟩) folder.above = .ok place)
    (hg : f.root.node? place = some (.folder g)) (content : ByteArray) :
    (Backing.files f folder).saving key content =
      writeEntry folder key (g.get? (fileName key)) := by
  have hthere : f.isFolderAt (place ++ [fileName key]) =
      match g.get? (fileName key) with
      | some (.folder _) => true
      | _ => false := by
    rw [Files.isFolderAt, Folder.node?_append hg, Folder.node?]
    rcases g.get? (fileName key) with _ | ⟨_⟩ | ⟨_⟩ <;> rfl
  rw [saving, save, Files.replace, placeFor_slotPath hk hf hg]
  unfold writeEntry
  rcases Files.examine .invalidArgument (slotPath folder key) with e | _
  · rfl
  simp only [bind, Except.bind]
  split_ifs with hlong
  · rfl
  simp only [hthere]
  rcases g.get? (fileName key) with _ | ⟨_⟩ | ⟨_⟩ <;> rfl

/-- A slot that was saved can be saved again. -/
theorem saving_save_self {content : ByteArray} (hk : IsSlotName key)
    (h : b.save key content = .ok b') (next : ByteArray) : b'.saving key next = .ok () := by
  cases b with
  | memory slots =>
    cases h
    rfl
  | files f folder =>
    obtain ⟨place, g, hf, hg, hnot, hex, hlong, rfl⟩ := save_files hk h
    have hkeeps : f.root.Keeps (f.put (.file content) (place ++ [fileName key])).root :=
      Folder.keeps_putNode hg hnot (.file content)
    rw [saving_files hk (Files.follow_of_keeps hkeeps hf)
      (Folder.node?_putNode hg (fileName key) (.file content)), Table.get?_put_self]
    unfold writeEntry
    rw [Files.examine_ok_iff.1 hex]
    simp only [bind, Except.bind, if_neg hlong]

/-- Saving a slot makes no difference to what saving another comes to. -/
theorem saving_save_of_ne {content : ByteArray} (hk : IsSlotName key) (ho : IsSlotName other)
    (hne : other ≠ key) (h : b.save key content = .ok b') (next : ByteArray) :
    b'.saving other next = b.saving other next := by
  cases b with
  | memory slots =>
    cases h
    rfl
  | files f folder =>
    obtain ⟨place, g, hf, hg, hnot, hex, hlong, rfl⟩ := save_files hk h
    have hkeeps : f.root.Keeps (f.put (.file content) (place ++ [fileName key])).root :=
      Folder.keeps_putNode hg hnot (.file content)
    rw [saving_files ho (Files.follow_of_keeps hkeeps hf)
      (Folder.node?_putNode hg (fileName key) (.file content)),
      Table.get?_put_of_ne fun h => hne (fileName_injective h), saving_files ho hf hg]

/-- Two backings cannot be told apart by what becomes of a slot. -/
structure Alike (key : String) (b b' : Backing) : Prop where
  load : b.load key = b'.load key
  saving : ∀ content, b.saving key content = b'.saving key content

theorem Alike.refl (key : String) (b : Backing) : Alike key b b :=
  ⟨rfl, fun _ => rfl⟩

theorem Alike.symm (h : Alike key b b') : Alike key b' b :=
  ⟨h.load.symm, fun content => (h.saving content).symm⟩

theorem Alike.trans {b'' : Backing} (h : Alike key b b') (h' : Alike key b' b'') :
    Alike key b b'' :=
  ⟨h.load.trans h'.load, fun content => (h.saving content).trans (h'.saving content)⟩

/-- Saving the slot in both leaves backings that cannot be told apart either. -/
theorem alike_save_self {n n' : Backing} {content : ByteArray} (hk : IsSlotName key)
    (h : b.save key content = .ok n) (h' : b'.save key content = .ok n') : Alike key n n' where
  load := by rw [load_save_self h, load_save_self h']
  saving next := by rw [saving_save_self hk h, saving_save_self hk h']

/-- By what becomes of one slot it cannot be told that another was saved. -/
theorem alike_save_of_ne {content : ByteArray} (hk : IsSlotName key) (ho : IsSlotName other)
    (hne : other ≠ key) (h : b.save key content = .ok b') : Alike other b' b :=
  ⟨load_save_of_ne hk ho hne h, saving_save_of_ne hk ho hne h⟩

/-- Saving a slot fails in both with the same error or in neither. -/
theorem Alike.save_cases (h : Alike key b b') (content : ByteArray) :
    (∃ e, b.save key content = .error e ∧ b'.save key content = .error e) ∨
      ∃ n n', b.save key content = .ok n ∧ b'.save key content = .ok n' := by
  have hsaving := h.saving content
  rcases hb : b.save key content with e | n <;> rcases hb' : b'.save key content with e' | n'
  · rw [saving_of_error hb, saving_of_error hb'] at hsaving
    cases hsaving
    exact .inl ⟨e, rfl, rfl⟩
  · rw [saving_of_error hb, saving_of_ok hb'] at hsaving
    cases hsaving
  · rw [saving_of_ok hb, saving_of_error hb'] at hsaving
    cases hsaving
  · exact .inr ⟨n, n', rfl, rfl⟩

/-- Whatever is saved, a slot can be loaded, and saved with any content. -/
structure Serves (b : Backing) (key : String) : Prop where
  load : ∃ slot, b.load key = .ok slot
  saving : ∀ content, b.saving key content = .ok ()

theorem serves_memory (slots : Table ByteArray) (key : String) : (memory slots).Serves key :=
  ⟨⟨_, rfl⟩, fun _ => rfl⟩

/-- Saving any slot keeps a slot served. -/
theorem Serves.save {content : ByteArray} (hs : b.Serves other) (hk : IsSlotName key)
    (ho : IsSlotName other) (h : b.save key content = .ok b') : b'.Serves other := by
  rcases eq_or_ne other key with rfl | hne
  · exact ⟨⟨_, load_save_self h⟩, saving_save_self hk h⟩
  · obtain ⟨⟨slot, hload⟩, hsaving⟩ := hs
    refine ⟨⟨slot, ?_⟩, fun next => ?_⟩
    · rw [load_save_of_ne hk ho hne h, hload]
    · rw [saving_save_of_ne hk ho hne h, hsaving]

/-- The text of a slot's path is never turned down for leading nowhere. -/
theorem examine_slotPath_ne (hk : IsSlotName key) (folder : Path) :
    Files.examine .nulInPath (slotPath folder key) ≠ .error .notFound := by
  have hempty : (slotPath folder key).isEmpty = false := by
    rw [slotPath_eq hk, Path.isEmpty_of_ne_empty _ _ (fileName_ne (by decide))]
  unfold Files.examine
  split_ifs <;> simp_all

theorem slotOf_ok {r : Except FileError ByteArray} {slot : Option ByteArray}
    (h : slotOf r = .ok slot) : (∃ content, r = .ok content) ∨ r = .error .notFound := by
  unfold slotOf at h
  split at h
  · exact .inl ⟨_, rfl⟩
  · exact .inr rfl
  · cases h

theorem writeEntry_of_readEntry (hk : IsSlotName key) {entry : Option Node}
    {slot : Option ByteArray} (h : slotOf (readEntry folder key entry) = .ok slot) :
    writeEntry folder key entry = .ok () := by
  have hne := examine_slotPath_ne hk folder
  have h := slotOf_ok h
  unfold readEntry at h
  unfold writeEntry
  rcases hex : Files.examine .nulInPath (slotPath folder key) with e | _ <;> rw [hex] at h hne
  · simp_all [bind, Except.bind]
  rw [Files.examine_ok_iff.1 hex]
  simp only [bind, Except.bind] at h ⊢
  split_ifs at h ⊢ with hlong
  · simp at h
  · rcases entry with _ | ⟨_⟩ | ⟨_⟩
    · rfl
    · rfl
    · simp at h

/-- What can be loaded from a folder that is there has a place. -/
theorem exists_place (hk : IsSlotName key) (h : folder.isEmpty = true ∨ f.isFolder folder = true)
    {slot : Option ByteArray} (hload : (files f folder).load key = .ok slot) :
    ∃ (place : List String) (g : Folder),
      f.follow (f.start ⟨folder.absolute, folder.above⟩) folder.above = .ok place ∧
      f.root.node? place = some (.folder g) := by
  rcases h with hempty | hfolder
  · -- The path says nothing about the place it stands for, so the slot has to.
    have habove := Path.above_of_isEmpty hempty
    have hne := examine_slotPath_ne hk folder
    have hread := slotOf_ok (load_of_read rfl ▸ hload)
    suffices hthere : f.isFolderAt (f.start ⟨folder.absolute, folder.above⟩) = true by
      obtain ⟨g, hg⟩ := Files.isFolderAt_iff.1 hthere
      exact ⟨_, g, by rw [habove]; rfl, hg⟩
    by_contra hnot
    rw [Files.read, Files.find, start_slotPath hk] at hread
    have hparts : (slotPath folder key).parts = [fileName key] := by simp [slotPath_eq hk, habove]
    rcases hex : Files.examine .nulInPath (slotPath folder key) with e | _ <;> rw [hex] at hread hne
    · simp_all [bind, Except.bind]
    · simp [bind, Except.bind, hparts, Files.follow, Files.enter, hnot] at hread
  · obtain ⟨g, hg⟩ := Files.isFolder_iff.1 hfolder
    obtain ⟨-, place, hfollow, hnode⟩ := Files.find_ok hg
    rcases folder.parts_eq_above with hparts | hparts
    · rw [hparts] at hfollow
      exact ⟨place, g, hfollow, hnode⟩
    · rw [hparts, Files.follow_append] at hfollow
      rcases hf : f.follow (f.start folder) folder.above with e | there <;> rw [hf] at hfollow
      · cases hfollow
      rw [Except.bind, Files.follow_cons] at hfollow
      rcases henter : f.enter there "" with e | next <;> rw [henter] at hfollow
      · cases hfollow
      obtain ⟨g', hg'⟩ := Files.isFolderAt_iff.1 (Files.enter_ok henter).1
      exact ⟨there, g', hf, hg'⟩

/-- A folder that is there serves the slots that can be loaded from it. -/
theorem serves_of_load (hk : IsSlotName key)
    (h : folder.isEmpty = true ∨ f.isFolder folder = true) {slot : Option ByteArray}
    (hload : (files f folder).load key = .ok slot) : (files f folder).Serves key := by
  obtain ⟨place, g, hf, hg⟩ := exists_place hk h hload
  refine ⟨⟨slot, hload⟩, fun content => ?_⟩
  rw [saving_files hk hf hg]
  rw [load_files hk hf hg] at hload
  exact writeEntry_of_readEntry hk hload

theorem load_of_find (h : f.find (slotPath folder key) = .error .notFound) :
    (files f folder).load key = .ok none := by
  refine load_of_read (r := .error .notFound) ?_
  rw [Files.read, h]
  rfl

theorem load_of_find_file {content : ByteArray}
    (h : f.find (slotPath folder key) = .ok (.file content)) :
    (files f folder).load key = .ok (some content) := by
  refine load_of_read (r := .ok content) ?_
  rw [Files.read, h]
  rfl

end Backing

end PageScript
