import PageScript.CommandLine.Perform
import Std.Time.DateTime.Timestamp

/-!
# The program

What an invocation needs is fetched from the system, the invocation is performed, and what it
changed and shows is handed back to the system.
-/

namespace PageScript.Program

open Invocation

def usage : String :=
  "Usage: page-script [--db-path <FOLDER>] <COMMAND>\n\n" ++
  "  run      [--delay-ms <N>] <SCRIPT | --preset <ID>>\n" ++
  "  plan     <SCRIPT | --preset <ID>>\n" ++
  "  debug    [--error <TEXT>] <SCRIPT | --preset <ID>>\n" ++
  "  presets\n" ++
  "  chain    <list | clear>\n" ++
  "  payments <list | confirm <ID> | fail <ID> | clear>\n"

def warning : String :=
  "WARNING: Persistent storage requested via --db-path, but 'storage-rocksdb' feature is not " ++
    "enabled. Falling back to JSON file storage."

/-- The reason of an error of the system, whose number some operations report negated. -/
def reason : IO.Error → FileError
  | .noFileOrDirectory _ _ _ => .notFound
  | .alreadyExists _ _ _ => .alreadyExists
  | .inappropriateType _ code _ =>
    if code = 21 ∨ code = 4294967275 then .isFolder else .notFolder
  | e => .other (toString e)

def attempt {α : Type} (action : IO α) : IO (Except FileError α) := do
  try return .ok (← action)
  catch e => return .error (reason e)

def folderMaker : FolderMaker IO where
  make p := attempt (IO.FS.createDir p.text)
  isFolder p := (⟨p.text, ""⟩ : IO.FS.DirEntry).root.isDir

/-- The files of the two ledgers. -/
def slotFiles : List String :=
  [Chain.ledger.key, Payments.ledger.key].map Backing.fileName

/-- The node at a path, if there is one. -/
def readNode (p : Path) : IO (Except FileError (Option Node)) := do
  match ← attempt (IO.FS.readBinFile p.text) with
  | .ok content => return .ok (some (.file content))
  | .error .notFound => return .ok none
  | .error e => if ← folderMaker.isFolder p then return .ok (some (.folder [])) else return .error e

def readFiles (folder : Path) : List String → IO (Except FileError Folder)
  | [] => return .ok []
  | name :: rest => do
    match ← readNode (folder.join (.ofString name)), ← readFiles folder rest with
    | .ok (some node), .ok others => return .ok ((name, node) :: others)
    | .ok none, .ok others => return .ok others
    | .error e, _ => return .error e
    | _, .error e => return .error e

/-- The store of the ledgers as a folder of its own. -/
def storeOf (folder : Folder) : Backing :=
  .files ⟨folder, []⟩ ⟨false, []⟩

def openStore (i : Invocation) : IO (Except FileError Backing) := do
  match i.folder with
  | none => return .ok (storeOf [])
  | some path =>
    IO.eprintln warning
    let folder := Path.ofString path
    match ← folderMaker.makeAll folder with
    | .error e => return .error e
    | .ok () => return (← readFiles folder slotFiles).map storeOf

def content? (b : Backing) (key : String) : Option ByteArray :=
  match b.load key with
  | .ok content => content
  | .error _ => none

/-- Puts the file of a slot that has changed in the place of the old one. -/
def writeSlot (folder : Path) (before after : Backing) (key : String) : IO Unit := do
  match content? after key with
  | none => pure ()
  | some content =>
    if (content? before key).map (·.data) ≠ some content.data then
      let target := (Backing.slotPath folder key).text
      IO.FS.writeBinFile (target ++ ".new") content
      IO.FS.rename (target ++ ".new") target

def writeStore (i : Invocation) (before : Except FileError Backing) (after : Option Backing) :
    IO Unit := do
  match i.folder, before, after with
  | some path, .ok before, some after =>
    for key in [Chain.ledger.key, Payments.ledger.key] do
      writeSlot (.ofString path) before after key
  | _, _, _ => pure ()

def readScript (i : Invocation) : IO (Except FileError ByteArray) := do
  match i.command.source? with
  | some (.file path) => attempt (IO.FS.readBinFile path)
  | some .input => attempt (do (← IO.getStdin).readBinToEnd)
  | _ => return .ok .empty

def systemTime : IO Int64 := do
  return Int64.ofInt (← Std.Time.Timestamp.now).toMillisecondsSinceUnixEpoch.val

/-- Ids that start at random. -/
def randomIds : IO IdSource := do
  let bytes ← IO.getRandomBytes 16
  return .countingFrom (bytes.data.foldl (fun n b => 256 * n + b.toNat) 0)

def environment : IO Environment :=
  [folderVariable, delayVariable].filterMapM fun name => do
    return (← IO.getEnv name).map (name, ·)

def display (delay : Nat) (shown : List Shown) : IO Unit := do
  let out ← IO.getStdout
  for piece in shown do
    match piece with
    | .text s =>
      out.putStr s
      out.flush
    | .pause => IO.sleep (UInt32.ofNat (min delay 4294967295))

def invoke (i : Invocation) : IO UInt32 := do
  let store ← openStore i
  let content ← readScript i
  let outcome := i.perform ⟨content, store, ← systemTime, ← randomIds⟩
  writeStore i store outcome.backing
  display i.command.delay outcome.reply.shown
  if let some error := outcome.reply.error then
    IO.eprintln ("Error:   × " ++ error)
  return UInt32.ofNat outcome.reply.status

end PageScript.Program

open PageScript in
def main (args : List String) : IO UInt32 := do
  match Invocation.ofArguments? (← Program.environment) args with
  | none =>
    IO.eprint Program.usage
    return UInt32.ofNat Invocation.usageStatus
  | some i => Program.invoke i
