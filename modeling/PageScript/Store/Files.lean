import PageScript.Failure
import PageScript.Store.Folder
import PageScript.Store.Path

/-!
# Files

`Files` are a tree of folders and the place in it that relative paths begin at.  A path is
followed part by part, and every part but the last has to be a folder; two dots lead up, at the
root nowhere.

`makeFolders` makes the folder at a path.  It is tried as it stands; if something above it is
missing, the folder above is made first, in the same way, and what was made stays when a later
step fails.  An error does not count when the folder is there after all.
-/

namespace PageScript

structure Files where
  root : Folder
  here : List String

namespace Files

/-- How many bytes a name may have. -/
def longestName : Nat := 255

/-- How many bytes a path may have. -/
def longestPath : Nat := 4095

/-- Turns down a path by its text alone: one that is empty or too long, or has a NUL character in
it, for which the error is given. -/
def examine (nul : FileError) (p : Path) : Except FileError Unit :=
  if p.text.toList.contains '\x00' then .error nul
  else if p.isEmpty then .error .notFound
  else if longestPath < p.text.utf8ByteSize then .error .nameTooLong
  else .ok ()

def isFolderAt (f : Files) (place : List String) : Bool :=
  match f.root.node? place with
  | some (.folder _) => true
  | _ => false

/-- The place that a part leads to. -/
def enter (f : Files) (place : List String) (part : String) : Except FileError (List String) :=
  if !f.isFolderAt place then .error .notFolder
  else if Path.stays part then .ok place
  else if part = ".." then .ok place.dropLast
  else if longestName < part.utf8ByteSize then .error .nameTooLong
  else if (f.root.node? (place ++ [part])).isNone then .error .notFound
  else .ok (place ++ [part])

def follow (f : Files) (place : List String) : List String → Except FileError (List String)
  | [] => .ok place
  | part :: rest => do f.follow (← f.enter place part) rest

def start (f : Files) (p : Path) : List String :=
  if p.absolute then [] else f.here

def find (f : Files) (p : Path) : Except FileError Node := do
  examine .nulInPath p
  match f.root.node? (← f.follow (f.start p) p.parts) with
  | some node => .ok node
  | none => .error .notFound

/-- The content of the file at a path. -/
def read (f : Files) (p : Path) : Except FileError ByteArray := do
  match ← f.find p with
  | .file content => .ok content
  | .folder _ => .error .isFolder

def isFolder (f : Files) (p : Path) : Bool :=
  match f.find p with
  | .ok (.folder _) => true
  | _ => false

/-- The place that a path gives to something new; none when it ends in dots or at the root, where
there always is something. -/
def placeFor (f : Files) (p : Path) : Except FileError (Option (List String)) :=
  match p.parts.reverse.dropWhile (· == "") with
  | [] => .ok none
  | last :: above => do
    let place ← f.follow (f.start p) above.reverse
    if !f.isFolderAt place then .error .notFolder
    else if last = "." ∨ last = ".." then .ok none
    else if longestName < last.utf8ByteSize then .error .nameTooLong
    else .ok (some (place ++ [last]))

def put (f : Files) (node : Node) (place : List String) : Files :=
  { f with root := f.root.putNode node place }

/-- Puts a file in the place of what is at a path, which must not be a folder. -/
def replace (f : Files) (p : Path) (content : ByteArray) : Except FileError Files := do
  examine .invalidArgument p
  match ← f.placeFor p with
  | none => .error .isFolder
  | some place => if f.isFolderAt place then .error .isFolder else .ok (f.put (.file content) place)

/-- Makes a folder in a folder that is there. -/
def makeFolder (f : Files) (p : Path) : Except FileError Files := do
  examine .nulInPath p
  match ← f.placeFor p with
  | none => .error .alreadyExists
  | some place =>
    if (f.root.node? place).isSome then .error .alreadyExists else .ok (f.put (.folder []) place)

end Files

/-- What it takes to make folders somewhere. -/
structure FolderMaker (m : Type → Type) where
  make : Path → m (Except FileError Unit)
  isFolder : Path → m Bool

namespace FolderMaker

variable {m : Type → Type} [Monad m]

def makeOrFind (s : FolderMaker m) (p : Path) (made : Except FileError Unit) :
    m (Except FileError Unit) := do
  match made with
  | .ok () => return .ok ()
  | .error e => if ← s.isFolder p then return .ok () else return .error e

/-- Makes the first of some folders, each of which lies in the next. -/
def makeFirst (s : FolderMaker m) : List Path → m (Except FileError Unit)
  | [] => return .ok ()
  | p :: above => do
    if p.isEmpty then return .ok ()
    match ← s.make p with
    | .error .notFound =>
      match ← s.makeFirst above with
      | .error e => return .error e
      | .ok () => s.makeOrFind p (← s.make p)
    | made => s.makeOrFind p made

def makeAll (s : FolderMaker m) (p : Path) : m (Except FileError Unit) :=
  s.makeFirst (p :: p.parents)

end FolderMaker

namespace Files

def folderMaker : FolderMaker (StateM Files) where
  make p := fun f =>
    match f.makeFolder p with
    | .ok f => (.ok (), f)
    | .error e => (.error e, f)
  isFolder p := fun f => (f.isFolder p, f)

/-- Makes the folder at a path and those above it that are not there. -/
def makeFolders (p : Path) : StateM Files (Except FileError Unit) :=
  folderMaker.makeAll p

end Files

end PageScript
