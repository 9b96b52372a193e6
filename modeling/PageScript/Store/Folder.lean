/-!
# Tables and folders

A `Table` maps names to values; `put` replaces the value of a name that is there and appends one
that is not (`get?_put_self`, `get?_put_of_ne`).  A `Folder` is a table of files and further
folders.
-/

namespace PageScript

abbrev Table (α : Type) := List (String × α)

namespace Table

variable {α : Type}

def get? (name : String) : Table α → Option α
  | [] => none
  | (n, a) :: rest => if n = name then some a else get? name rest

def put (name : String) (a : α) : Table α → Table α
  | [] => [(name, a)]
  | (n, b) :: rest => if n = name then (name, a) :: rest else (n, b) :: put name a rest

theorem get?_put_self (name : String) (a : α) (t : Table α) :
    (t.put name a).get? name = some a := by
  induction t with
  | nil => simp [put, get?]
  | cons p rest ih =>
    obtain ⟨n, b⟩ := p
    by_cases h : n = name <;> simp [put, get?, h, ih]

theorem get?_put_of_ne {name other : String} (h : other ≠ name) (a : α) (t : Table α) :
    (t.put name a).get? other = t.get? other := by
  induction t with
  | nil => simp [put, get?, h.symm]
  | cons p rest ih =>
    obtain ⟨n, b⟩ := p
    by_cases hn : n = name
    · subst hn
      simp [put, get?, h.symm]
    · simp only [put, hn, if_false, get?, ih]

end Table

inductive Node where
  | file (content : ByteArray)
  | folder (entries : List (String × Node))

abbrev Folder := Table Node

namespace Folder

/-- What is found along a list of names. -/
def node? (root : Folder) : List String → Option Node
  | [] => some (.folder root)
  | name :: rest =>
    match root.get? name with
    | none => none
    | some (.folder f) => node? f rest
    | some (.file c) => if rest.isEmpty then some (.file c) else none

/-- Puts an entry at the end of a list of names, whose folders have to be there. -/
def putNode (root : Folder) (node : Node) : List String → Folder
  | [] => root
  | [name] => root.put name node
  | name :: rest =>
    match root.get? name with
    | some (.folder f) => root.put name (.folder (putNode f node rest))
    | _ => root

end Folder

end PageScript
