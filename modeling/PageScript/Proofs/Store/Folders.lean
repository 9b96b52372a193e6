import Mathlib.Data.List.TakeWhile
import PageScript.Proofs.Store.Recording

/-!
# Folders that are made

Making the folder at a path puts an empty folder where nothing was (`Files.makeFolder_ok`), or fails
because something is there.  So `Files.makeFolders` never touches a file (`Files.SameFiles`); where
it succeeds the path leads to a folder afterwards, unless it is empty, and where the path did so
before nothing is made (`Files.makeFolders_of_isFolder`).
-/

namespace PageScript

namespace Folder

/-- Putting an entry into a folder makes no difference to a file that it makes none to in that
folder. -/
theorem node?_putNode_iff {root g : Folder} {place : List String}
    (h : root.node? place = some (.folder g)) {name : String} {node : Node} {other : List String}
    {content : ByteArray}
    (hin : ∀ rest, other = place ++ rest →
      (Folder.node? (g.put name node) rest = some (.file content) ↔
        g.node? rest = some (.file content))) :
    (root.putNode node (place ++ [name])).node? other = some (.file content) ↔
      root.node? other = some (.file content) := by
  induction place generalizing root other with
  | nil =>
    simp only [node?, Option.some.injEq, Node.folder.injEq] at h
    subst h
    exact hin other rfl
  | cons part place ih =>
    rw [node?] at h
    split at h
    · cases h
    · rename_i f hf
      rw [List.cons_append, putNode_cons_of_folder hf _ (by simp)]
      rcases other with _ | ⟨next, rest⟩
      · simp [node?]
      · rcases eq_or_ne next part with rfl | hne
        · rw [node?_cons_of_folder (Table.get?_put_self _ _ _), node?_cons_of_folder hf]
          exact ih h fun below hbelow => hin below (by rw [hbelow]; rfl)
        · rw [node?_put_of_ne hne]
    · split at h <;> simp at h

/-- An empty folder that is put where nothing was leaves all files as they were. -/
theorem node?_putNode_folder {root g : Folder} {place : List String}
    (h : root.node? place = some (.folder g)) {name : String} (hn : g.get? name = none)
    (other : List String) (content : ByteArray) :
    (root.putNode (.folder []) (place ++ [name])).node? other = some (.file content) ↔
      root.node? other = some (.file content) := by
  refine node?_putNode_iff h fun rest _ => ?_
  rcases rest with _ | ⟨part, rest⟩
  · simp [node?]
  · rcases eq_or_ne part name with rfl | hne
    · rw [node?_cons_of_folder (Table.get?_put_self _ _ _), node?, hn]
      rcases rest with _ | ⟨next, rest⟩ <;> simp [node?, Table.get?]
    · rw [node?_put_of_ne hne]

/-- A file that is put where no folder was leaves all others as they were. -/
theorem node?_putNode_file {root g : Folder} {place : List String}
    (h : root.node? place = some (.folder g)) {name : String}
    (hn : ∀ f, g.get? name ≠ some (.folder f)) (new : ByteArray) {other : List String}
    (hne : other ≠ place ++ [name]) (content : ByteArray) :
    (root.putNode (.file new) (place ++ [name])).node? other = some (.file content) ↔
      root.node? other = some (.file content) := by
  refine node?_putNode_iff h fun rest hrest => ?_
  rcases rest with _ | ⟨part, rest⟩
  · simp [node?]
  · rcases eq_or_ne part name with rfl | hpart
    · have hbelow : rest ≠ [] := by
        rintro rfl
        exact hne hrest
      rw [node?, node?, Table.get?_put_self]
      rcases hg : g.get? part with _ | ⟨old⟩ | ⟨f⟩
      · simp [hbelow]
      · simp [hbelow]
      · exact absurd hg (hn f)
    · rw [node?_put_of_ne hpart]

end Folder

namespace Files

variable {f f' : Files} {p : Path}

/-- That two trees have the same files, with the same content and in the same places. -/
def SameFiles (f f' : Files) : Prop :=
  ∀ place content, f.root.node? place = some (.file content) ↔
    f'.root.node? place = some (.file content)

theorem SameFiles.refl (f : Files) : f.SameFiles f :=
  fun _ _ => Iff.rfl

theorem SameFiles.trans {f'' : Files} (h : f.SameFiles f') (h' : f'.SameFiles f'') :
    f.SameFiles f'' :=
  fun place content => (h place content).trans (h' place content)

theorem find_ok {node : Node} (h : f.find p = .ok node) :
    examine .nulInPath p = .ok () ∧
      ∃ place, f.follow (f.start p) p.parts = .ok place ∧ f.root.node? place = some node := by
  rw [find] at h
  rcases hex : examine .nulInPath p with e | _ <;> rw [hex] at h
  · cases h
  rcases hfollow : f.follow (f.start p) p.parts with e | place <;> rw [hfollow] at h
  · cases h
  rcases hnode : f.root.node? place with _ | found
  · simp [bind, Except.bind, hnode] at h
  · refine ⟨rfl, place, rfl, ?_⟩
    simpa [bind, Except.bind, hnode] using h

theorem isFolder_iff : f.isFolder p = true ↔ ∃ g, f.find p = .ok (.folder g) := by
  rw [isFolder]
  split
  · rename_i g hg
    simp [hg]
  · rename_i h
    simp only [Bool.false_eq_true, false_iff, not_exists]
    exact fun g hg => h g hg

/-- A folder is still found where all folders were kept. -/
theorem isFolder_of_keeps (hk : f.root.Keeps f'.root) (hhere : f'.here = f.here)
    (h : f.isFolder p = true) : f'.isFolder p = true := by
  obtain ⟨g, hg⟩ := isFolder_iff.1 h
  obtain ⟨hex, place, hfollow, hnode⟩ := find_ok hg
  obtain ⟨node, hnode', hfolder⟩ := hk place _ hnode
  obtain ⟨g', rfl⟩ := hfolder g rfl
  have hstart : f'.start p = f.start p := by simp only [start, hhere]
  refine isFolder_iff.2 ⟨g', ?_⟩
  rw [find, hex, hstart, follow_of_keeps hk hfollow]
  simp only [bind, Except.bind, hnode']

/-- A path has nothing but empty parts, or a last part before the empty ones at its end. -/
theorem parts_cases (p : Path) :
    p.parts.reverse.dropWhile (· == "") = [] ∨
      ∃ above last trail, p.parts = above ++ last :: trail ∧ (∀ part ∈ trail, part = "") ∧
        last ≠ "" ∧ p.parts.reverse.dropWhile (· == "") = last :: above.reverse := by
  rcases h : p.parts.reverse.dropWhile (· == "") with _ | ⟨last, rest⟩
  · exact .inl rfl
  · have hsplit := List.takeWhile_append_dropWhile (p := (· == "")) (l := p.parts.reverse)
    rw [h] at hsplit
    refine .inr ⟨rest.reverse, last, (p.parts.reverse.takeWhile (· == "")).reverse, ?_, ?_, ?_, ?_⟩
    · simpa using (congrArg List.reverse hsplit).symm
    · intro part hpart
      simpa using List.mem_takeWhile_imp (List.mem_reverse.1 hpart)
    · rintro rfl
      have hhead := List.head?_dropWhile_not (· == "") p.parts.reverse
      simp [h] at hhead
    · rw [List.reverse_reverse]

/-- A part leads somewhere only from a folder. -/
theorem enter_ok {place next : List String} {part : String} (h : f.enter place part = .ok next) :
    f.isFolderAt place = true ∧ (Path.stays part = false → part ≠ ".." →
      ¬ longestName < part.utf8ByteSize ∧ (f.root.node? (place ++ [part])).isSome = true) := by
  unfold enter at h
  split_ifs at h with h1 h2 h3 h4 h5
  · exact ⟨by simpa using h1, fun hs => by simp [hs] at h2⟩
  · exact ⟨by simpa using h1, fun _ hd => absurd h3 hd⟩
  · exact ⟨by simpa using h1, fun _ _ => ⟨h4, by simpa [Option.isSome_iff_ne_none] using h5⟩⟩

theorem follow_trail {place trail : List String} (h : f.isFolderAt place = true)
    (ht : ∀ part ∈ trail, part = "") : f.follow place trail = .ok place := by
  induction trail with
  | nil => rfl
  | cons part trail ih =>
    obtain ⟨rfl, hrest⟩ := List.forall_mem_cons.1 ht
    have henter : f.enter place "" = .ok place := by simp [enter, h, Path.stays]
    rw [follow_cons, henter]
    exact ih hrest

/-- A path that ends in dots has no place for anything new. -/
theorem placeFor_ne_some_of_dots {above : List String} {last : String}
    (hp : p.parts.reverse.dropWhile (· == "") = last :: above.reverse)
    (hd : last = "." ∨ last = "..") (place : List String) : f.placeFor p ≠ .ok (some place) := by
  rw [placeFor, hp]
  simp only [List.reverse_reverse]
  rcases f.follow (f.start p) above with e | above
  · rintro ⟨⟩
  · simp only [bind, Except.bind, hd, if_true]
    split_ifs <;> rintro ⟨⟩

/-- What making a folder comes to: an empty one at a last part that led nowhere. -/
theorem makeFolder_ok (h : f.makeFolder p = .ok f') :
    ∃ (above : List String) (last : String) (trail place : List String) (g : Folder),
      p.parts = above ++ last :: trail ∧ (∀ part ∈ trail, part = "") ∧
      Path.stays last = false ∧ last ≠ ".." ∧ ¬ longestName < last.utf8ByteSize ∧
      examine .nulInPath p = .ok () ∧ f.follow (f.start p) above = .ok place ∧
      f.root.node? place = some (.folder g) ∧ g.get? last = none ∧
      f' = f.put (.folder []) (place ++ [last]) := by
  rw [makeFolder] at h
  rcases hex : examine .nulInPath p with e | _ <;> rw [hex] at h
  · cases h
  rcases hplace : f.placeFor p with e | _ | there <;> rw [hplace] at h
  · cases h
  · cases h
  rcases parts_cases p with hnone | ⟨above, last, trail, hparts, htrail, hlast, hp⟩
  · rw [placeFor, hnone] at hplace
    cases hplace
  have hdots : ¬ (last = "." ∨ last = "..") :=
    fun hd => placeFor_ne_some_of_dots hp hd there hplace
  obtain ⟨place, g, hf, hg, hlong, hthere⟩ := placeFor_ok hp hdots hplace
  obtain rfl := Option.some.inj hthere
  have hnode : f.root.node? (place ++ [last]) = (g.get? last).bind fun node => some node := by
    rw [Folder.node?_append hg, Folder.node?]
    rcases g.get? last with _ | ⟨_⟩ | ⟨_⟩ <;> rfl
  rw [not_or] at hdots
  simp only [bind, Except.bind, hnode] at h
  split_ifs at h with hsome
  refine ⟨above, last, trail, place, g, hparts, htrail, by simp [Path.stays, hlast, hdots],
    hdots.2, hlong, rfl, hf, hg, by simpa using hsome, (Except.ok.inj h).symm⟩

theorem sameFiles_of_makeFolder (h : f.makeFolder p = .ok f') : f.SameFiles f' := by
  obtain ⟨_, last, _, place, g, -, -, -, -, -, -, -, hg, hnone, rfl⟩ := makeFolder_ok h
  exact fun other content => (Folder.node?_putNode_folder hg hnone other content).symm

/-- A folder that was made is found at its path. -/
theorem isFolder_of_makeFolder (h : f.makeFolder p = .ok f') : f'.isFolder p = true := by
  obtain ⟨above, last, trail, place, g, hparts, htrail, hstays, hdots, hlong, hex, hf, hg, hnone,
    rfl⟩ := makeFolder_ok h
  have hkeeps : f.root.Keeps (f.put (.folder []) (place ++ [last])).root :=
    Folder.keeps_putNode hg (by simp [hnone]) (.folder [])
  have hg' := Folder.node?_putNode hg last (.folder [])
  have hlast := follow_last (follow_of_keeps hkeeps hf) hg' hstays hdots
  rw [Table.get?_put_self, if_neg hlong, if_neg (by simp)] at hlast
  have hnode : (f.put (.folder []) (place ++ [last])).root.node? (place ++ [last]) =
      some (.folder []) := by
    rw [put, Folder.node?_append hg', Folder.node?, Table.get?_put_self]
    rfl
  have hstart : (f.put (.folder []) (place ++ [last])).start p = f.start p := rfl
  have hfollow : (f.put (.folder []) (place ++ [last])).follow (f.start p) p.parts =
      .ok (place ++ [last]) := by
    have hsplit : p.parts = (above ++ [last]) ++ trail := by simp [hparts]
    rw [hsplit, follow_append, hlast, Except.bind,
      follow_trail (isFolderAt_iff.2 ⟨[], hnode⟩) htrail]
  refine isFolder_iff.2 ⟨[], ?_⟩
  rw [find, hex, hstart, hfollow]
  simp only [bind, Except.bind, hnode]

/-- Where a path leads to a folder none is made. -/
theorem makeFolder_of_isFolder (h : f.isFolder p = true) :
    f.makeFolder p = .error .alreadyExists := by
  obtain ⟨g, hg⟩ := isFolder_iff.1 h
  obtain ⟨hex, there, hfollow, -⟩ := find_ok hg
  suffices hplace : f.placeFor p = .ok none ∨
      ∃ place, f.placeFor p = .ok (some place) ∧ (f.root.node? place).isSome = true by
    rw [makeFolder, hex]
    rcases hplace with hplace | ⟨place, hplace, hsome⟩
    · rw [hplace]
      rfl
    · rw [hplace]
      simp only [bind, Except.bind, hsome, if_true]
  rcases parts_cases p with hnone | ⟨above, last, trail, hparts, -, hlast, hp⟩
  · exact .inl (by rw [placeFor, hnone])
  rw [hparts, follow_append] at hfollow
  rcases hf : f.follow (f.start p) above with e | place <;> rw [hf] at hfollow
  · cases hfollow
  rw [Except.bind, follow_cons] at hfollow
  rcases henter : f.enter place last with e | next <;> rw [henter] at hfollow
  · cases hfollow
  obtain ⟨hfolder, hthere⟩ := enter_ok henter
  by_cases hdots : last = "." ∨ last = ".."
  · left
    rw [placeFor, hp]
    simp only [List.reverse_reverse, hf, bind, Except.bind, hfolder, hdots, Bool.not_true,
      Bool.false_eq_true, if_false, if_true]
  · rw [not_or] at hdots
    obtain ⟨hlong, hsome⟩ := hthere (by simp [Path.stays, hlast, hdots]) hdots.2
    refine .inr ⟨place ++ [last], ?_, hsome⟩
    rw [placeFor_of_last hp (not_or.2 hdots), hf, Except.bind, hfolder, if_neg (by simp),
      if_neg hlong]

theorem make_cases (p : Path) (f : Files) :
    (∃ f', folderMaker.make p f = (.ok (), f') ∧ f.SameFiles f' ∧ f'.isFolder p = true) ∨
      ∃ e, folderMaker.make p f = (.error e, f) := by
  rcases h : f.makeFolder p with e | f'
  · exact .inr ⟨e, by simp [folderMaker, h]⟩
  · exact .inl ⟨f', by simp [folderMaker, h], sameFiles_of_makeFolder h, isFolder_of_makeFolder h⟩

/-- How trying to make folders may end, the last of them at `p`. -/
structure Tries (p : Path) (f : Files) (r : Except FileError Unit × Files) : Prop where
  sameFiles : f.SameFiles r.2
  isFolder : r.1 = .ok () → p.isEmpty = true ∨ r.2.isFolder p = true

theorem makeOrFind_ok (p : Path) (f : Files) :
    folderMaker.makeOrFind p (.ok ()) f = (.ok (), f) := rfl

theorem makeOrFind_error (p : Path) (e : FileError) (f : Files) :
    folderMaker.makeOrFind p (.error e) f = (if f.isFolder p then .ok () else .error e, f) := by
  simp only [FolderMaker.makeOrFind, bind_apply, folderMaker]
  split_ifs <;> rfl

theorem tries_error (p : Path) (e : FileError) (f : Files) :
    Tries p f (folderMaker.makeOrFind p (.error e) f) := by
  rw [makeOrFind_error]
  refine ⟨.refl f, fun h => .inr ?_⟩
  by_contra hnot
  simp [hnot] at h

theorem tries_make (p : Path) (f : Files) :
    Tries p f ((do folderMaker.makeOrFind p (← folderMaker.make p) :
      StateM Files (Except FileError Unit)) f) := by
  rw [bind_apply]
  rcases make_cases p f with ⟨f', hmake, hsame, hfolder⟩ | ⟨e, hmake⟩ <;> rw [hmake]
  · exact ⟨hsame, fun _ => .inr hfolder⟩
  · exact tries_error p e f

theorem makeFirst_of_isEmpty {p : Path} (h : p.isEmpty = true) (above : List Path) (f : Files) :
    folderMaker.makeFirst (p :: above) f = (.ok (), f) := by
  rw [FolderMaker.makeFirst, if_pos h]
  rfl

/-- Folders above one are made only where that one misses them. -/
theorem makeFirst_of_make {p : Path} (hp : p.isEmpty = false) (above : List Path)
    {f f' : Files} {made : Except FileError Unit} (hmake : folderMaker.make p f = (made, f'))
    (hmade : made ≠ .error .notFound) :
    folderMaker.makeFirst (p :: above) f = folderMaker.makeOrFind p made f' := by
  rw [FolderMaker.makeFirst, if_neg (by simp [hp]), bind_apply, hmake]
  rcases made with (_ | _ | _ | _ | _ | _ | _ | _) | _
  · exact absurd rfl hmade
  all_goals rfl

theorem makeFirst_of_above_error {p : Path} (hp : p.isEmpty = false) {above : List Path}
    {f f' f'' : Files} {e : FileError} (hmake : folderMaker.make p f = (.error .notFound, f'))
    (habove : folderMaker.makeFirst above f' = (.error e, f'')) :
    folderMaker.makeFirst (p :: above) f = (.error e, f'') := by
  simp only [FolderMaker.makeFirst, hp, Bool.false_eq_true, if_false, bind_apply, hmake, habove]
  rfl

theorem makeFirst_of_above_ok {p : Path} (hp : p.isEmpty = false) {above : List Path}
    {f f' f'' : Files} (hmake : folderMaker.make p f = (.error .notFound, f'))
    (habove : folderMaker.makeFirst above f' = (.ok (), f'')) :
    folderMaker.makeFirst (p :: above) f =
      (do folderMaker.makeOrFind p (← folderMaker.make p) :
        StateM Files (Except FileError Unit)) f'' := by
  simp [FolderMaker.makeFirst, hp, bind_apply, hmake, habove]

theorem Tries.of_sameFiles {p : Path} {r : Except FileError Unit × Files} (h : f.SameFiles f')
    (hr : Tries p f' r) : Tries p f r :=
  ⟨h.trans hr.sameFiles, hr.isFolder⟩

theorem tries_makeFirst {above : List Path}
    (h : ∀ f : Files, f.SameFiles (folderMaker.makeFirst above f).2) (p : Path) (f : Files) :
    Tries p f (folderMaker.makeFirst (p :: above) f) := by
  by_cases hp : p.isEmpty = true
  · rw [makeFirst_of_isEmpty hp]
    exact ⟨.refl f, fun _ => .inl hp⟩
  rw [Bool.not_eq_true] at hp
  rcases make_cases p f with ⟨f', hmake, hsame, hfolder⟩ | ⟨e, hmake⟩
  · rw [makeFirst_of_make hp above hmake nofun, makeOrFind_ok]
    exact ⟨hsame, fun _ => .inr hfolder⟩
  by_cases he : e = .notFound
  · subst he
    have habove := h f
    rcases hr : folderMaker.makeFirst above f with ⟨e | _, f'⟩ <;> rw [hr] at habove
    · rw [makeFirst_of_above_error hp hmake hr]
      exact ⟨habove, nofun⟩
    · rw [makeFirst_of_above_ok hp hmake hr]
      exact (tries_make p f').of_sameFiles habove
  · rw [makeFirst_of_make hp above hmake (by simpa using he)]
    exact tries_error p e f

theorem sameFiles_makeFirst (ps : List Path) (f : Files) :
    f.SameFiles (folderMaker.makeFirst ps f).2 := by
  induction ps generalizing f with
  | nil => exact .refl f
  | cons p above ih => exact (tries_makeFirst ih p f).sameFiles

/-- Making folders leaves all files as they were, and when it succeeds the path, if it is not empty,
leads to a folder. -/
theorem tries_makeFolders (p : Path) (f : Files) : Tries p f (makeFolders p f) :=
  tries_makeFirst (sameFiles_makeFirst _) p f

theorem isFolder_of_makeFolders (h : makeFolders p f = (.ok (), f')) :
    p.isEmpty = true ∨ f'.isFolder p = true := by
  have htries := tries_makeFolders p f
  rw [h] at htries
  exact htries.isFolder rfl

/-- A path that leads to a folder has none made. -/
theorem makeFolders_of_isFolder (h : f.isFolder p = true) : makeFolders p f = (.ok (), f) := by
  have hp : p.isEmpty = false := by
    obtain ⟨g, hg⟩ := isFolder_iff.1 h
    obtain ⟨hex, -⟩ := find_ok hg
    by_contra hempty
    rw [examine] at hex
    split_ifs at hex with h1 h2
    exact h2 (by simpa using hempty)
  have hmake : folderMaker.make p f = (.error .alreadyExists, f) := by
    simp [folderMaker, makeFolder_of_isFolder h]
  have hfirst := makeFirst_of_make hp p.parents hmake nofun
  rw [makeOrFind_error, if_pos h] at hfirst
  exact hfirst

theorem makeFolders_of_isEmpty (h : p.isEmpty = true) (f : Files) :
    makeFolders p f = (.ok (), f) :=
  makeFirst_of_isEmpty h _ f

end Files

end PageScript
