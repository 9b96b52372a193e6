import PageScript.Store.Folder

/-!
# Arguments

A command line is read level by level: the program itself, its command, and for some commands the
command's own command.  A level has options that take a value, a number of places, and the
commands that lead one level down.  An option is given once, by its full name, with its value
after an equals sign or as the next argument, which then must not look like an option; after a
lone `--` every argument takes a place.
-/

namespace PageScript.CommandLine

/-- What may stand on one level. -/
structure Level where
  options : List String
  places : Nat
  commands : List String

/-- What stands on one level, with the arguments of the level below. -/
structure Reading where
  options : Table String
  places : List String
  command : Option (String × List String)

namespace Level

def addPlace? (l : Level) (r : Reading) (a : String) : Option Reading :=
  if r.places.length < l.places then some { r with places := r.places ++ [a] } else none

def addOption? (l : Level) (r : Reading) (name value : String) : Option Reading :=
  if name ∈ l.options ∧ (r.options.get? name).isNone then
    some { r with options := r.options.put name value }
  else none

/-- Whether an argument would be taken for an option; a lone dash would not. -/
def looksLikeOption (a : String) : Bool :=
  a.toList.head? == some '-' && a != "-"

/-- The name of a long option, and its value if that is attached. -/
def longOption? (a : String) : Option (String × Option String) :=
  match a.toList with
  | '-' :: '-' :: cs =>
    let name := String.ofList (cs.takeWhile (· != '='))
    match cs.dropWhile (· != '=') with
    | _ :: value => some (name, some (String.ofList value))
    | [] => some (name, none)
  | _ => none

/-- Reads the arguments from one that may be a command or an option; `literal` says that a lone
`--` came before. -/
def readFrom? (l : Level) (literal : Bool) (r : Reading) : List String → Option Reading
  | [] => some r
  | a :: rest =>
    if literal then do l.readFrom? true (← l.addPlace? r a) rest
    else if a ∈ l.commands then some { r with command := some (a, rest) }
    else if a = "--" then l.readFrom? true r rest
    else
      match longOption? a with
      | some (name, some value) => do l.readFrom? false (← l.addOption? r name value) rest
      | some (name, none) =>
        match rest with
        | [] => none
        | value :: rest =>
          if looksLikeOption value then none
          else do l.readFrom? false (← l.addOption? r name value) rest
      | none =>
        if looksLikeOption a then none
        else do l.readFrom? false (← l.addPlace? r a) rest

def read? (l : Level) (args : List String) : Option Reading :=
  l.readFrom? false ⟨[], [], none⟩ args

end Level

end PageScript.CommandLine
