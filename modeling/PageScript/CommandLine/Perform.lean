import PageScript.CommandLine.Invocation
import PageScript.Console
import PageScript.Runner
import PageScript.Script.Advice
import PageScript.Script.Interpret
import PageScript.Script.Preset
import PageScript.Sheet
import PageScript.Text.Blank

/-!
# Carrying out a command

`Command.perform` works at a desk and gives what is shown and, if the command fails, why.
`Invocation.perform` sets up the desk from what surrounds the program, and `Files.invoke` takes
its surroundings from a tree of files.
-/

namespace PageScript

open Json

/-- What appears on the output, piece by piece; a pause is the delay before an effect. -/
inductive Shown where
  | text (s : String)
  | pause

def Shown.string : Shown → String
  | .text s => s
  | .pause => ""

structure Reply where
  shown : List Shown
  error : Option String

namespace Reply

def succeed (text : String) : Reply := ⟨[.text text], none⟩

def failed (error : String) : Reply := ⟨[], some error⟩

def output (r : Reply) : String :=
  String.join (r.shown.map Shown.string)

/-- The status the program exits with. -/
def status (r : Reply) : Nat :=
  if r.error.isSome then 1 else 0

end Reply

namespace Console

/-- What a hook call prints on a console where nothing is broken. -/
def printed (c : HookCall) : String :=
  ((respond c).run (fresh [])).2.output

def lineText (line : String) : String :=
  ((println line).run (fresh [])).2.output

/-- What a run with such a console shows, from the record of the run. -/
def shown (record : List Occurrence) : List Shown :=
  record.filterMap fun
    | .hook c => some (.text (printed c))
    | .pause => some .pause
    | _ => none

end Console

namespace Source

/-- The script, given what reading the named file or the input has brought. -/
def load (content : Except FileError ByteArray) : Source → Except String String
  | .preset id =>
    match Script.Preset.find? id with
    | some found => .ok found.code
    | none => .error ("Unknown preset: " ++ id)
  | .file _ | .input => do
    match String.fromUTF8? (← content.mapError FileError.message) with
    | some script => .ok script
    | none => .error "stream did not contain valid UTF-8"

end Source

namespace Command

/-- The source of the script, for a command that has one. -/
def source? : Command → Option Source
  | .run source _ | .plan source | .debug source _ => some source
  | _ => none

/-- How long a command waits before each effect, in milliseconds. -/
def delay : Command → Nat
  | .run _ delay => delay
  | _ => 0

def empty (what : String) : Reply :=
  ⟨[.text (Console.lineText ("Error: Cannot " ++ what ++ " an empty script."))],
    some ("Cannot " ++ what ++ " an empty script")⟩

def opening (script : String) : String :=
  Console.lineText ("Interpreting script with MockAI Runtime...\n---\n" ++ script ++ "\n---")

def closing : String :=
  Console.lineText "--- MockAI interpretation finished ---"

/-- Works with a console on the output; what it shows follows from the record of the desk. -/
def onConsole {α : Type} (work : StateM (Stage Console) α) : StateM Desk α := fun d =>
  let (a, stage) := work ⟨d, Console.fresh []⟩
  (a, stage.desk)

def runScript (script : String) : StateM Desk Reply := do
  discard <| onConsole (Runner.run Console.observer [] script)
  let shown := Console.shown (← get).record
  return ⟨.text (opening script) :: shown ++ [.text closing], none⟩

/-- Replies with the result of an action, or with why it failed. -/
def reply {α : Type} (action : Action α) (use : α → Reply) : StateM Desk Reply := do
  match ← action.run with
  | .ok a => return use a
  | .error failure => return .failed failure.message

def noSession (id : String) : String :=
  "No pending payment session " ++ id

def confirmSession (id : String) : StateM Desk Reply := do
  let result ← onConsole (Runner.confirmPayment Console.observer id).run
  let shown := Console.shown (← get).record
  match result with
  | .ok (some _) => return ⟨shown, none⟩
  | .ok none => return ⟨shown, some (noSession id)⟩
  | .error failure => return ⟨shown, some failure.message⟩

def perform (content : Except FileError ByteArray) : Command → StateM Desk Reply
  | .run source _ => do
    match source.load content with
    | .error e => return .failed e
    | .ok script => if Text.allBlank script then return empty "run" else runScript script
  | .plan source => do
    match source.load content with
    | .error e => return .failed e
    | .ok script =>
      let plan := Script.interpret [] (← get).now script
      return .succeed (plan.toValue.indented ++ "\n")
  | .debug source error => do
    match source.load content with
    | .error e => return .failed e
    | .ok script =>
      if Text.allBlank script then return empty "debug"
      else return .succeed ((Script.Advice.onError script error).markdown ++ "\n")
  | .presets =>
    return .succeed <| String.join <| Script.Preset.all.map fun p =>
      p.id ++ "\t" ++ p.name ++ "\t" ++ p.description ++ "\n"
  | .listEvents => reply Chain.list fun events => .succeed (Sheet.events events)
  | .clearEvents => reply Chain.clear fun _ => .succeed ""
  | .listSessions => reply Payments.list fun sessions => .succeed (Sheet.sessions sessions)
  | .confirm id => confirmSession id
  | .fail id => reply (Payments.fail id) fun
    | some session => .succeed (Console.lineText ("Payment " ++ session.id ++ " marked as failed."))
    | none => .failed (noSession id)
  | .clearSessions => reply Payments.clear fun _ => .succeed ""

end Command

/-- What a program finds around it: the content of the script it was asked to read, the store in
the folder it was asked for, the time, and new ids. -/
structure Surroundings where
  content : Except FileError ByteArray
  store : Except FileError Backing
  now : Int64
  ids : IdSource

structure Outcome where
  reply : Reply
  /-- Whether it warned that the store is kept in files. -/
  warned : Bool
  /-- The store afterwards. -/
  backing : Option Backing
  ids : IdSource

namespace Invocation

/-- The exit status when the arguments are not well formed. -/
def usageStatus : Nat := 2

/-- The backing of the run: the store asked for, or memory that the program forgets. -/
def backing (i : Invocation) (s : Surroundings) : Except FileError Backing :=
  match i.folder with
  | none => .ok (.memory [])
  | some _ => s.store

def perform (i : Invocation) (s : Surroundings) : Outcome :=
  match i.backing s with
  | .error e => ⟨.failed (Failure.inOut (.file e)).message, i.folder.isSome, none, s.ids⟩
  | .ok backing =>
    let (reply, desk) := (i.command.perform s.content).run ⟨backing, [], s.now, s.ids, []⟩
    ⟨reply, i.folder.isSome, some desk.backing, desk.ids⟩

/-- The path of the script to read, none when it comes from the input or from nowhere. -/
def scriptPath? (i : Invocation) : Option Path :=
  match i.command.source? with
  | some (.file path) => some (.ofString path)
  | _ => none

end Invocation

namespace Files

/-- What an argument list came to; nothing when it named no command to perform. -/
structure Invoked where
  outcome : Option Outcome
  files : Files
  ids : IdSource

/-- Opens the store of an invocation, whose folder is made if need be. -/
def openStore (i : Invocation) : StateM Files (Except FileError Backing) := do
  let folder := Path.ofString (i.folder.getD "")
  match ← makeFolders folder with
  | .ok () => return .ok (.files (← get) folder)
  | .error e => return .error e

def contentFor (f : Files) (input : ByteArray) (i : Invocation) : Except FileError ByteArray :=
  match i.scriptPath? with
  | some path => f.read path
  | none => .ok input

/-- Runs the program where there are these files. -/
def invoke (f : Files) (args : List String) (env : Invocation.Environment) (input : ByteArray)
    (now : Int64) (ids : IdSource) : Invoked :=
  match Invocation.ofArguments? env args with
  | none => ⟨none, f, ids⟩
  | some i =>
    let (store, f) := (openStore i).run f
    let outcome := i.perform ⟨f.contentFor input i, store, now, ids⟩
    let after := (outcome.backing.bind Backing.files?).getD f
    ⟨some outcome, after, outcome.ids⟩

end Files

end PageScript
