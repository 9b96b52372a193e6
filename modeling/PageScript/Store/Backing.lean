import PageScript.Store.Files

/-!
# Backings

A backing keeps opaque bytes under fixed names, its slots.  It is a table in memory, or a folder
in which the slot `k` is the file `k.json`.  A slot that was never written is absent, which is no
failure.
-/

namespace PageScript

inductive Backing where
  | memory (slots : Table ByteArray)
  | files (files : Files) (folder : Path)

namespace Backing

def fileName (key : String) : String :=
  key ++ ".json"

def slotPath (folder : Path) (key : String) : Path :=
  folder.join (.ofString (fileName key))

def load (b : Backing) (key : String) : Except FileError (Option ByteArray) :=
  match b with
  | .memory slots => .ok (slots.get? key)
  | .files f folder =>
    match f.read (slotPath folder key) with
    | .ok content => .ok (some content)
    | .error .notFound => .ok none
    | .error e => .error e

def save (b : Backing) (key : String) (content : ByteArray) : Except FileError Backing :=
  match b with
  | .memory slots => .ok (.memory (slots.put key content))
  | .files f folder =>
    (f.replace (slotPath folder key) content).map fun f => .files f folder

/-- Puts an empty folder where the file of a slot belongs, so that the slot can be neither loaded
nor saved; slots in memory are not affected. -/
def block (b : Backing) (key : String) : Backing :=
  match b with
  | .memory slots => .memory slots
  | .files f folder =>
    match f.placeFor (slotPath folder key) with
    | .ok (some place) => .files (f.put (.folder []) place) folder
    | _ => .files f folder

/-- The files of a backing that is kept in files. -/
def files? : Backing → Option Files
  | .memory _ => none
  | .files f _ => some f

end Backing

end PageScript
