import PageScript.CommandLine.Arguments
import PageScript.Store.Path
import PageScript.Text.Numeral

/-!
# Invocations

What an argument list asks for, if it is well formed: a command, and the folder of a persistent
store.  The folder may be named on every level, where the lowest one counts, or in the
environment; the delay of a run may come from the environment too.
-/

namespace PageScript

/-- Where a script comes from. -/
inductive Source where
  | preset (id : String)
  | file (path : String)
  | input

inductive Command where
  | run (source : Source) (delay : Nat)
  | plan (source : Source)
  | debug (source : Source) (error : String)
  | presets
  | listEvents
  | clearEvents
  | listSessions
  | confirm (id : String)
  | fail (id : String)
  | clearSessions

structure Invocation where
  folder : Option String
  command : Command

namespace Invocation

open CommandLine

abbrev Environment := Table String

def defaultError : String :=
  "TypeError: Cannot read properties of null (reading 'data')"

def folderOption : String := "db-path"

def folderVariable : String := "PDFX_DB_PATH"

def delayVariable : String := "PDFX_DELAY_MS"

/-- The program's own level. -/
def program : Level :=
  ⟨[folderOption], 0, ["run", "plan", "debug", "presets", "chain", "payments"]⟩

def withSource (options : List String) : Level :=
  ⟨folderOption :: "preset" :: options, 1, []⟩

def withPlaces (n : Nat) : Level := ⟨[folderOption], n, []⟩

def withCommands (commands : List String) : Level := ⟨[folderOption], 0, commands⟩

/-- A number of milliseconds, of at most 64 bits. -/
def millis? (s : String) : Option Nat :=
  let ds := if s.toList.head? = some '+' then s.toList.drop 1 else s.toList
  let n := Numeral.value ds
  if ds ≠ [] ∧ ds.all Char.isDigit ∧ n < 18446744073709551616 then some n else none

/-- The folder in force after these levels, the program's first.  On no level may an empty path be
in force. -/
def folder? (env : Environment) (levels : List Reading) : Option (Option String) :=
  let variable_ := env.get? folderVariable
  let given := levels.map (·.options.get? folderOption)
  if given.all fun g => g.or variable_ != some "" then
    some ((given.reverse.findSome? id).or variable_)
  else none

/-- Whether a path names the standard input: a dash, which slashes and dots after it do not
change. -/
def isInput (path : String) : Bool :=
  match Path.ofString path with
  | ⟨false, first :: rest⟩ => first == "-" && rest.all Path.stays
  | _ => false

/-- A script is named by exactly one of a path and a preset. -/
def source? (r : Reading) : Option Source :=
  match r.places, r.options.get? "preset" with
  | [path], none =>
    if path = "" then none
    else if isInput path then some .input
    else some (.file path)
  | [], some id => some (.preset id)
  | _, _ => none

def delay? (env : Environment) (r : Reading) : Option Nat :=
  match (r.options.get? "delay-ms").or (env.get? delayVariable) with
  | some s => millis? s
  | none => some 0

/-- Reads the level of a command that has no commands of its own. -/
def leaf? (env : Environment) (above : List Reading) (l : Level) (args : List String)
    (command? : Reading → Option Command) : Option Invocation := do
  let r ← l.read? args
  let command ← command? r
  return ⟨← folder? env (above ++ [r]), command⟩

def onePlace? (r : Reading) : Option String :=
  match r.places with
  | [a] => some a
  | _ => none

def chain? (env : Environment) (top : Reading) (args : List String) : Option Invocation := do
  let r ← (withCommands ["list", "clear"]).read? args
  let (name, args) ← r.command
  leaf? env [top, r] (withPlaces 0) args fun _ =>
    some (if name = "list" then .listEvents else .clearEvents)

def payments? (env : Environment) (top : Reading) (args : List String) : Option Invocation := do
  let r ← (withCommands ["list", "confirm", "fail", "clear"]).read? args
  let (name, args) ← r.command
  let level := withPlaces (if name = "confirm" ∨ name = "fail" then 1 else 0)
  leaf? env [top, r] level args fun leaf =>
    match name with
    | "list" => some .listSessions
    | "confirm" => (onePlace? leaf).map .confirm
    | "fail" => (onePlace? leaf).map .fail
    | _ => some .clearSessions

/-- What an argument list asks for.  A request for help or for the version asks for no command, so
that it comes to nothing here just as a list that is not well formed. -/
def ofArguments? (env : Environment) (args : List String) : Option Invocation := do
  let top ← program.read? args
  let (name, args) ← top.command
  match name with
  | "run" =>
    leaf? env [top] (withSource ["delay-ms"]) args fun r => do
      return .run (← source? r) (← delay? env r)
  | "plan" =>
    leaf? env [top] (withSource []) args fun r => do
      return .plan (← source? r)
  | "debug" =>
    leaf? env [top] (withSource ["error"]) args fun r => do
      return .debug (← source? r) ((r.options.get? "error").getD defaultError)
  | "presets" => leaf? env [top] (withPlaces 0) args fun _ => some .presets
  | "chain" => chain? env top args
  | "payments" => payments? env top args
  | _ => none

end Invocation

end PageScript
