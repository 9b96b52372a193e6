import Mathlib.Tactic
import PageScript.Store.Backing

/-!
# Slots

What is saved under a name is what is loaded under it afterwards (`Backing.load_save_self`).  In a
folder that is so because putting a file where no folder is keeps all folders, so that a path that
could be followed before can be followed still.

Saving under a name does not change what is loaded under another (`Backing.load_save_of_ne`).  In
memory that holds for every name, in a folder for names of one part, which lead nowhere but into
the folder.
-/

namespace PageScript

namespace Folder

theorem node?_cons_of_folder {root f : Folder} {name : String}
    (h : root.get? name = some (.folder f)) (rest : List String) :
    root.node? (name :: rest) = node? f rest := by
  rw [node?, h]

theorem node?_append {root f : Folder} {place : List String}
    (h : root.node? place = some (.folder f)) (rest : List String) :
    root.node? (place ++ rest) = node? f rest := by
  induction place generalizing root with
  | nil =>
    simp only [node?, Option.some.injEq, Node.folder.injEq] at h
    rw [List.nil_append, h]
  | cons name place ih =>
    rw [node?] at h
    split at h
    · cases h
    · rename_i g hg
      rw [List.cons_append, node?_cons_of_folder hg]
      exact ih h
    · split at h <;> simp at h

theorem putNode_cons_of_folder {root f : Folder} {name : String}
    (h : root.get? name = some (.folder f)) (node : Node) {rest : List String} (hr : rest ≠ []) :
    root.putNode node (name :: rest) = root.put name (.folder (putNode f node rest)) := by
  obtain ⟨last, above, rfl⟩ := List.exists_cons_of_ne_nil hr
  simp only [putNode, h]

/-- The folder that an entry is put into has it, and is otherwise as it was. -/
theorem node?_putNode {root f : Folder} {place : List String}
    (h : root.node? place = some (.folder f)) (name : String) (node : Node) :
    (root.putNode node (place ++ [name])).node? place = some (.folder (f.put name node)) := by
  induction place generalizing root with
  | nil =>
    simp only [node?, Option.some.injEq, Node.folder.injEq] at h
    rw [List.nil_append, h]
    rfl
  | cons part place ih =>
    rw [node?] at h
    split at h
    · cases h
    · rename_i g hg
      rw [List.cons_append, putNode_cons_of_folder hg node (by simp),
        node?_cons_of_folder (Table.get?_put_self _ _ _)]
      exact ih h
    · split at h <;> simp at h

/-- Entries of one folder tree that are there in another, folders as folders. -/
def Keeps (root new : Folder) : Prop :=
  ∀ place node, root.node? place = some node →
    ∃ node', new.node? place = some node' ∧ ∀ f, node = .folder f → ∃ f', node' = .folder f'

theorem Keeps.refl (root : Folder) : root.Keeps root :=
  fun _ node h => ⟨node, h, fun f hf => ⟨f, hf⟩⟩

theorem node?_put_of_ne {name other : String} (h : other ≠ name) (node : Node) (root : Folder)
    (rest : List String) :
    Folder.node? (root.put name node) (other :: rest) = root.node? (other :: rest) := by
  rw [node?, node?, Table.get?_put_of_ne h]

theorem keeps_put {root : Folder} {name : String} {node : Node}
    (h : ∀ f, root.get? name ≠ some (.folder f)) : root.Keeps (root.put name node) := by
  intro place old hold
  rcases place with _ | ⟨part, rest⟩
  · simp only [node?, Option.some.injEq] at hold
    exact ⟨_, rfl, fun _ _ => ⟨_, rfl⟩⟩
  rcases eq_or_ne part name with rfl | hne
  · rw [node?] at hold
    split at hold
    · cases hold
    · rename_i f hf
      exact absurd hf (h f)
    · rename_i content _
      split at hold
      · rename_i hr
        obtain rfl : rest = [] := by simpa using hr
        refine ⟨node, ?_, fun f hf => by rw [← Option.some.inj hold] at hf; cases hf⟩
        rw [node?, Table.get?_put_self]
        rcases node with _ | _ <;> rfl
      · cases hold
  · exact Keeps.refl root (part :: rest) old hold |>.imp fun node' hn =>
      ⟨by rw [node?_put_of_ne hne]; exact hn.1, hn.2⟩

theorem keeps_put_folder {root f f' : Folder} {name : String}
    (h : root.get? name = some (.folder f)) (hk : f.Keeps f') :
    root.Keeps (root.put name (.folder f')) := by
  intro place old hold
  rcases place with _ | ⟨part, rest⟩
  · exact ⟨_, rfl, fun _ _ => ⟨_, rfl⟩⟩
  rcases eq_or_ne part name with rfl | hne
  · rw [node?_cons_of_folder h] at hold
    rw [node?_cons_of_folder (Table.get?_put_self _ _ _)]
    exact hk rest old hold
  · rw [node?_put_of_ne hne]
    exact Keeps.refl root (part :: rest) old hold

theorem keeps_putNode {root f : Folder} {place : List String}
    (h : root.node? place = some (.folder f)) {name : String}
    (hn : ∀ g, f.get? name ≠ some (.folder g)) (node : Node) :
    root.Keeps (root.putNode node (place ++ [name])) := by
  induction place generalizing root with
  | nil =>
    simp only [node?, Option.some.injEq, Node.folder.injEq] at h
    subst h
    exact keeps_put hn
  | cons part place ih =>
    rw [node?] at h
    split at h
    · cases h
    · rename_i g hg
      rw [List.cons_append, putNode_cons_of_folder hg node (by simp)]
      exact keeps_put_folder hg (ih h)
    · split at h <;> simp at h

end Folder

namespace Files

theorem isFolderAt_iff {f : Files} {place : List String} :
    f.isFolderAt place = true ↔ ∃ g, f.root.node? place = some (.folder g) := by
  rw [isFolderAt]
  split
  · rename_i g hg
    simp [hg]
  · rename_i h
    simp only [Bool.false_eq_true, false_iff, not_exists]
    exact fun g hg => h g hg

theorem enter_of_keeps {f f' : Files} (hk : f.root.Keeps f'.root) {place next : List String}
    {part : String} (h : f.enter place part = .ok next) : f'.enter place part = .ok next := by
  have hfolder : f.isFolderAt place = true → f'.isFolderAt place = true := by
    rw [isFolderAt_iff, isFolderAt_iff]
    rintro ⟨g, hg⟩
    obtain ⟨node, hn, hf⟩ := hk place _ hg
    obtain ⟨g', rfl⟩ := hf g rfl
    exact ⟨g', hn⟩
  unfold enter at h ⊢
  split_ifs at h with h1 h2 h3 h4 h5
  · rw [if_neg (by simpa using hfolder (by simpa using h1)), if_pos h2, h]
  · rw [if_neg (by simpa using hfolder (by simpa using h1)), if_neg h2, if_pos h3, h]
  · have h6 : ¬ (f'.root.node? (place ++ [part])).isNone = true := by
      rw [Option.isNone_iff_eq_none] at h5 ⊢
      obtain ⟨node, hn⟩ := Option.ne_none_iff_exists'.1 h5
      obtain ⟨node', hn', -⟩ := hk _ _ hn
      simp [hn']
    rw [if_neg (by simpa using hfolder (by simpa using h1)), if_neg h2, if_neg h3, if_neg h4,
      if_neg h6, h]

theorem follow_cons (f : Files) (place : List String) (part : String) (rest : List String) :
    f.follow place (part :: rest) = (f.enter place part).bind (f.follow · rest) := rfl

theorem follow_of_keeps {f f' : Files} (hk : f.root.Keeps f'.root) {place next : List String}
    {parts : List String} (h : f.follow place parts = .ok next) :
    f'.follow place parts = .ok next := by
  induction parts generalizing place with
  | nil => exact h
  | cons part rest ih =>
    rw [follow_cons] at h ⊢
    rcases hp : f.enter place part with e | p <;> rw [hp] at h
    · cases h
    · rw [enter_of_keeps hk hp]
      exact ih h

theorem follow_append (f : Files) (place : List String) (parts rest : List String) :
    f.follow place (parts ++ rest) = (f.follow place parts).bind (f.follow · rest) := by
  induction parts generalizing place with
  | nil => rfl
  | cons part parts ih =>
    rw [List.cons_append, follow_cons, follow_cons]
    rcases f.enter place part with e | p
    · rfl
    · exact ih p

/-- What is found at the last part of a path once the parts above it lead to a folder. -/
theorem follow_last {f : Files} {start place : List String} {above : List String} {g : Folder}
    (hf : f.follow start above = .ok place) (hg : f.root.node? place = some (.folder g))
    {name : String} (hn : Path.stays name = false) (hd : name ≠ "..") :
    f.follow start (above ++ [name]) =
      if longestName < name.utf8ByteSize then .error .nameTooLong
      else if (g.get? name).isNone then .error .notFound
      else .ok (place ++ [name]) := by
  have hfolder : f.isFolderAt place = true := isFolderAt_iff.2 ⟨g, hg⟩
  have hnode : (f.root.node? (place ++ [name])).isNone = (g.get? name).isNone := by
    rw [Folder.node?_append hg, Folder.node?]
    rcases g.get? name with _ | ⟨_⟩ | ⟨_⟩ <;> rfl
  rw [follow_append, hf]
  simp only [Except.bind, follow_cons, enter, hfolder, hn, hd, hnode]
  split_ifs <;> simp_all [follow]

theorem examine_ok_iff {e e' : FileError} {p : Path} :
    examine e p = .ok () ↔ examine e' p = .ok () := by
  unfold examine
  split_ifs <;> simp

/-- Where something new with a name of its own goes. -/
theorem placeFor_of_last {p : Path} {above : List String} {name : String}
    (hp : p.parts.reverse.dropWhile (· == "") = name :: above.reverse)
    (hd : ¬ (name = "." ∨ name = "..")) (f : Files) :
    f.placeFor p = (f.follow (f.start p) above).bind fun place =>
      if !f.isFolderAt place then .error .notFolder
      else if longestName < name.utf8ByteSize then .error .nameTooLong
      else .ok (some (place ++ [name])) := by
  rw [placeFor, hp]
  simp only [List.reverse_reverse, hd, if_false]
  rfl

theorem placeFor_ok {f : Files} {p : Path} {above : List String} {name : String}
    {place? : Option (List String)}
    (hp : p.parts.reverse.dropWhile (· == "") = name :: above.reverse)
    (hd : ¬ (name = "." ∨ name = "..")) (h : f.placeFor p = .ok place?) :
    ∃ (place : List String) (g : Folder), f.follow (f.start p) above = .ok place ∧
      f.root.node? place = some (.folder g) ∧ ¬ longestName < name.utf8ByteSize ∧
      place? = some (place ++ [name]) := by
  rw [placeFor_of_last hp hd] at h
  rcases hf : f.follow (f.start p) above with e | place <;> rw [hf] at h
  · cases h
  rw [Except.bind] at h
  by_cases hfolder : f.isFolderAt place = true
  · obtain ⟨g, hg⟩ := isFolderAt_iff.1 hfolder
    simp only [hfolder, Bool.not_true, Bool.false_eq_true, if_false] at h
    split_ifs at h with hlong
    exact ⟨place, g, rfl, hg, hlong, (Except.ok.inj h).symm⟩
  · simp only [hfolder, Bool.not_false, if_true] at h
    cases h

/-- What putting a file somewhere comes to. -/
theorem replace_ok {f f' : Files} {p : Path} {above : List String} {name : String}
    {content : ByteArray} (hp : p.parts.reverse.dropWhile (· == "") = name :: above.reverse)
    (hd : ¬ (name = "." ∨ name = "..")) (h : f.replace p content = .ok f') :
    ∃ (place : List String) (g : Folder), f.follow (f.start p) above = .ok place ∧
      f.root.node? place = some (.folder g) ∧ (∀ g', g.get? name ≠ some (.folder g')) ∧
      examine .nulInPath p = .ok () ∧ ¬ longestName < name.utf8ByteSize ∧
      f' = f.put (.file content) (place ++ [name]) := by
  rw [replace] at h
  rcases hex : examine .invalidArgument p with e | _ <;> rw [hex] at h
  · cases h
  rcases hplace : f.placeFor p with e | place? <;> rw [hplace] at h
  · cases h
  obtain ⟨place, g, hf, hg, hlong, rfl⟩ := placeFor_ok hp hd hplace
  by_cases hthere : f.isFolderAt (place ++ [name]) = true
  · simp only [bind, Except.bind, hthere, if_true] at h
    cases h
  · simp only [bind, Except.bind, hthere] at h
    refine ⟨place, g, hf, hg, fun g' hg' => hthere ?_, examine_ok_iff.1 hex, hlong,
      (Except.ok.inj h).symm⟩
    refine isFolderAt_iff.2 ⟨g', ?_⟩
    rw [Folder.node?_append hg, Folder.node?, hg']
    rfl

/-- What was put at a path is read there afterwards. -/
theorem read_replace_self {f f' : Files} {p : Path} {above : List String} {name : String}
    {content : ByteArray} (hp : p.parts = above ++ [name]) (hn : Path.stays name = false)
    (hd : name ≠ "..") (h : f.replace p content = .ok f') : f'.read p = .ok content := by
  obtain ⟨hne, hdot⟩ : name ≠ "" ∧ name ≠ "." := by simpa [Path.stays] using hn
  have hrev : p.parts.reverse.dropWhile (· == "") = name :: above.reverse := by simp [hp, hne]
  obtain ⟨place, g, hf, hg, hnot, hex, hlong, rfl⟩ :=
    replace_ok hrev (not_or.2 ⟨hdot, hd⟩) h
  have hkeeps : f.root.Keeps (f.put (.file content) (place ++ [name])).root :=
    Folder.keeps_putNode hg hnot (.file content)
  have hg' := Folder.node?_putNode hg name (.file content)
  have hlast := follow_last (follow_of_keeps hkeeps hf) hg' hn hd
  have hnode : (f.put (.file content) (place ++ [name])).root.node? (place ++ [name]) =
      some (.file content) := by
    rw [put, Folder.node?_append hg', Folder.node?, Table.get?_put_self]
    rfl
  have hstart : (f.put (.file content) (place ++ [name])).start p = f.start p := rfl
  rw [Table.get?_put_self, if_neg hlong, if_neg (by simp)] at hlast
  rw [read, find, hex, hstart, hp, hlast]
  simp only [bind, Except.bind, hnode]

end Files

namespace Path

theorem split_of_not_mem {cs : List Char} (h : '/' ∉ cs) : split cs = [cs] := by
  induction cs with
  | nil => rfl
  | cons c cs ih =>
    rw [List.mem_cons, not_or] at h
    rw [split, if_neg (Ne.symm h.1), ih h.2]

/-- What stands at the end of a text and has no slash belongs to the last part. -/
theorem split_append {ds : List Char} (h : '/' ∉ ds) (cs : List Char) :
    ∃ above last, split (cs ++ ds) = above ++ [last ++ ds] := by
  induction cs with
  | nil => exact ⟨[], [], split_of_not_mem h⟩
  | cons c cs ih =>
    obtain ⟨above, last, hs⟩ := ih
    rw [List.cons_append, split, hs]
    by_cases hc : c = '/'
    · exact ⟨[] :: above, last, by rw [if_pos hc]; rfl⟩
    · rw [if_neg hc]
      rcases above with _ | ⟨part, above⟩
      · exact ⟨[], c :: last, rfl⟩
      · exact ⟨(c :: part) :: above, last, rfl⟩

/-- A text that ends in something without a slash leads to a name that ends in it. -/
theorem parts_ofString_append {s t : String} (h : '/' ∉ t.toList) :
    ∃ above name, (ofString (s ++ t)).parts = above ++ [name ++ t] := by
  have hparts : ∀ cs : List Char, ∃ above name,
      (split (cs ++ t.toList)).map String.ofList = above ++ [name ++ t] := by
    intro cs
    obtain ⟨above, last, hs⟩ := split_append h cs
    exact ⟨above.map String.ofList, String.ofList last, by simp [hs]⟩
  unfold ofString
  split
  · rename_i cs hs
    rw [String.toList_append] at hs
    rcases hl : s.toList with _ | ⟨c, cs'⟩
    · rw [hl, List.nil_append] at hs
      simp [hs] at h
    · rw [hl, List.cons_append] at hs
      obtain ⟨rfl, rfl⟩ := List.cons.inj hs
      exact hparts cs'
  · rw [String.toList_append]
    exact hparts s.toList

/-- A text without a slash is a path of one part. -/
theorem ofString_of_not_mem {s : String} (h : '/' ∉ s.toList) : ofString s = ⟨false, [s]⟩ := by
  unfold ofString
  split
  · rename_i cs hs
    simp [hs] at h
  · rw [split_of_not_mem h]
    simp

/-- The parts of a folder's path that the parts of what is in it come after. -/
def above (folder : Path) : List String :=
  if folder.parts.getLast? = some "" then folder.parts.dropLast else folder.parts

end Path

namespace Backing

/-- Names that lead nowhere but into the folder of a store. -/
def IsSlotName (key : String) : Prop := '/' ∉ key.toList

instance (key : String) : Decidable (IsSlotName key) :=
  inferInstanceAs (Decidable ('/' ∉ key.toList))

variable {key other : String}

theorem slotPath_eq (hk : IsSlotName key) (folder : Path) :
    slotPath folder key = ⟨folder.absolute, folder.above ++ [fileName key]⟩ := by
  have h : '/' ∉ (fileName key).toList := by
    rw [fileName, String.toList_append, List.mem_append, not_or]
    exact ⟨hk, by decide⟩
  rw [slotPath, Path.ofString_of_not_mem h]
  rfl

theorem start_slotPath (hk : IsSlotName key) (f : Files) (folder : Path) :
    f.start (slotPath folder key) = f.start ⟨folder.absolute, folder.above⟩ := by
  rw [slotPath_eq hk]
  rfl

theorem length_fileName (key : String) : 5 ≤ (fileName key).toList.length := by
  simp [fileName]

theorem fileName_ne {key s : String} (h : s.toList.length < 5) : fileName key ≠ s := by
  rintro rfl
  exact absurd (length_fileName key) (by omega)

theorem stays_fileName (key : String) : Path.stays (fileName key) = false := by
  simp only [Path.stays, Bool.or_eq_false_iff, beq_eq_false_iff_ne]
  exact ⟨fileName_ne (by decide), fileName_ne (by decide)⟩

theorem fileName_injective {key other : String} (h : fileName key = fileName other) :
    key = other :=
  (String.append_left_inj _).1 h

/-- What reading makes of an entry in the folder of a store. -/
def readEntry (folder : Path) (key : String) (entry : Option Node) :
    Except FileError ByteArray := do
  Files.examine .nulInPath (slotPath folder key)
  if Files.longestName < (fileName key).utf8ByteSize then .error .nameTooLong
  else
    match entry with
    | none => .error .notFound
    | some (.file content) => .ok content
    | some (.folder _) => .error .isFolder

/-- What a load makes of what was read: without a file there is nothing in the slot. -/
def slotOf : Except FileError ByteArray → Except FileError (Option ByteArray)
  | .ok content => .ok (some content)
  | .error .notFound => .ok none
  | .error e => .error e

theorem load_memory (slots : Table ByteArray) :
    (Backing.memory slots).load key = .ok (slots.get? key) := rfl

theorem load_of_read {f : Files} {folder : Path} {r : Except FileError ByteArray}
    (h : f.read (slotPath folder key) = r) : (Backing.files f folder).load key = slotOf r := by
  subst h
  rfl

theorem load_files {f : Files} {folder : Path} {place : List String} {g : Folder}
    (hk : IsSlotName key)
    (hf : f.follow (f.start ⟨folder.absolute, folder.above⟩) folder.above = .ok place)
    (hg : f.root.node? place = some (.folder g)) :
    (Backing.files f folder).load key =
      slotOf (readEntry folder key (g.get? (fileName key))) := by
  have hlast := Files.follow_last hf hg (stays_fileName key) (fileName_ne (by decide))
  have hparts : (slotPath folder key).parts = folder.above ++ [fileName key] := by
    rw [slotPath_eq hk]
  have hread : f.read (slotPath folder key) = readEntry folder key (g.get? (fileName key)) := by
    unfold readEntry
    rw [Files.read, Files.find, start_slotPath hk, hparts, hlast]
    rcases Files.examine .nulInPath (slotPath folder key) with e | _
    · rfl
    · split_ifs with h1 h2
      · rfl
      · rw [Option.isNone_iff_eq_none] at h2
        rw [h2]
        rfl
      · obtain ⟨node, hn⟩ := Option.ne_none_iff_exists'.1 (mt Option.isNone_iff_eq_none.2 h2)
        have hnode : f.root.node? (place ++ [fileName key]) = some node := by
          rw [Folder.node?_append hg, Folder.node?, hn]
          rcases node with _ | _ <;> rfl
        rw [hn]
        simp only [bind, Except.bind, hnode]
        rcases node with _ | _ <;> rfl
  exact load_of_read hread

/-- What a save in a folder comes to. -/
theorem save_files {f : Files} {folder : Path} {content : ByteArray} {b : Backing}
    (hk : IsSlotName key) (h : (Backing.files f folder).save key content = .ok b) :
    ∃ (place : List String) (g : Folder),
      f.follow (f.start ⟨folder.absolute, folder.above⟩) folder.above = .ok place ∧
      f.root.node? place = some (.folder g) ∧
      (∀ g', g.get? (fileName key) ≠ some (.folder g')) ∧
      Files.examine .nulInPath (slotPath folder key) = .ok () ∧
      ¬ Files.longestName < (fileName key).utf8ByteSize ∧
      b = .files (f.put (.file content) (place ++ [fileName key])) folder := by
  have hne : fileName key ≠ "" := fileName_ne (by decide)
  have hdots : ¬ (fileName key = "." ∨ fileName key = "..") :=
    not_or.2 ⟨fileName_ne (by decide), fileName_ne (by decide)⟩
  have hparts : (slotPath folder key).parts.reverse.dropWhile (· == "") =
      fileName key :: folder.above.reverse := by
    simp [slotPath_eq hk, hne]
  rw [save] at h
  rcases hreplace : f.replace (slotPath folder key) content with e | f' <;> rw [hreplace] at h
  · cases h
  · obtain rfl := Except.ok.inj h
    obtain ⟨place, g, hf, hg, hnot, hex, hlong, rfl⟩ := Files.replace_ok hparts hdots hreplace
    rw [start_slotPath hk] at hf
    exact ⟨place, g, hf, hg, hnot, hex, hlong, rfl⟩

theorem load_save_files {f : Files} {folder : Path} {content : ByteArray} {b : Backing}
    (hk : IsSlotName key) (ho : IsSlotName other)
    (h : (Backing.files f folder).save key content = .ok b) :
    b.load other =
      if other = key then .ok (some content) else (Backing.files f folder).load other := by
  obtain ⟨place, g, hf, hg, hnot, hex, hlong, rfl⟩ := save_files hk h
  have hkeeps : f.root.Keeps (f.put (.file content) (place ++ [fileName key])).root :=
    Folder.keeps_putNode hg hnot (.file content)
  have hf' := Files.follow_of_keeps hkeeps hf
  have hg' := Folder.node?_putNode hg (fileName key) (.file content)
  rw [load_files ho hf' hg']
  split_ifs with heq
  · subst heq
    have hread : readEntry folder other (some (.file content)) = .ok content := by
      rw [readEntry, hex]
      simp only [bind, Except.bind, if_neg hlong]
    rw [Table.get?_put_self, hread, slotOf]
  · rw [Table.get?_put_of_ne fun h => heq (fileName_injective h), ← load_files ho hf hg]

/-- Whatever the name of a slot, its path ends in a name for a file. -/
theorem parts_slotPath (folder : Path) (key : String) :
    ∃ above name, (slotPath folder key).parts = above ++ [fileName name] := by
  obtain ⟨above, name, h⟩ :=
    Path.parts_ofString_append (s := key) (t := ".json") (by decide)
  rw [slotPath, Path.join]
  split
  · exact ⟨above, name, h⟩
  · exact ⟨folder.above ++ above, name, by rw [List.append_assoc]; exact congrArg _ h⟩

/-- A slot holds what was saved in it last. -/
theorem load_save_self {b b' : Backing} {content : ByteArray}
    (h : b.save key content = .ok b') : b'.load key = .ok (some content) := by
  cases b with
  | memory slots =>
    cases h
    rw [load_memory, Table.get?_put_self]
  | files f folder =>
    obtain ⟨above, name, hparts⟩ := parts_slotPath folder key
    rw [save] at h
    rcases hreplace : f.replace (slotPath folder key) content with e | f' <;> rw [hreplace] at h
    · cases h
    · obtain rfl := Except.ok.inj h
      exact load_of_read
        (Files.read_replace_self hparts (stays_fileName name) (fileName_ne (by decide)) hreplace)

/-- Saving a slot leaves every other one as it was. -/
theorem load_save_of_ne {b b' : Backing} {content : ByteArray} (hk : IsSlotName key)
    (ho : IsSlotName other) (hne : other ≠ key) (h : b.save key content = .ok b') :
    b'.load other = b.load other := by
  cases b with
  | memory slots =>
    cases h
    rw [load_memory, load_memory, Table.get?_put_of_ne hne]
  | files f folder => rw [load_save_files hk ho h, if_neg hne]

end Backing

end PageScript
