import PageScript.Json.Number

/-!
# JSON values

A `Value` keeps the members of an object in the order in which they stand, repeated keys
included.  `Value.sorted` is the free-form reading of such a value: in every object the last of
several members with one key wins, and the keys are in the order of their characters, which is
also the order of their UTF-8 bytes.
-/

namespace PageScript.Json

inductive Value where
  | null
  | bool (b : Bool)
  | number (n : Number)
  | string (s : String)
  | array (items : List Value)
  | object (members : List (String × Value))

/-- The members of an object. -/
abbrev Members := List (String × Value)

namespace Members

/-- Puts a member in its place among sorted ones, where it replaces one with the same key. -/
def insert (key : String) (v : Value) : Members → Members
  | [] => [(key, v)]
  | (k, w) :: rest =>
    if key < k then (key, v) :: (k, w) :: rest
    else if key = k then (key, v) :: rest
    else (k, w) :: insert key v rest

def ofList (members : List (String × Value)) : Members :=
  members.foldl (fun sorted m => insert m.1 m.2 sorted) []

end Members

namespace Value

def int (n : Int) : Value := .number (.int n)

def nat (n : Nat) : Value := .number (.int n)

mutual

/-- The free-form reading: keys sorted, and of several equal ones the last. -/
def sorted : Value → Value
  | .array items => .array (sortedItems items)
  | .object members => .object (Members.ofList (sortedMembers members))
  | v => v

def sortedItems : List Value → List Value
  | [] => []
  | v :: rest => v.sorted :: sortedItems rest

def sortedMembers : List (String × Value) → List (String × Value)
  | [] => []
  | (k, v) :: rest => (k, v.sorted) :: sortedMembers rest

end

mutual

/-- How deep arrays and objects are nested; a scalar has depth zero. -/
def depth : Value → Nat
  | .array items => itemsDepth items + 1
  | .object members => membersDepth members + 1
  | _ => 0

def itemsDepth : List Value → Nat
  | [] => 0
  | v :: rest => max v.depth (itemsDepth rest)

def membersDepth : List (String × Value) → Nat
  | [] => 0
  | (_, v) :: rest => max v.depth (membersDepth rest)

end

def string? : Value → Option String
  | .string s => some s
  | _ => none

def bool? : Value → Option Bool
  | .bool b => some b
  | _ => none

def array? : Value → Option (List Value)
  | .array items => some items
  | _ => none

/-- The members of an object in the free-form reading. -/
def members? : Value → Option Members
  | .object members => some (Members.ofList (sortedMembers members))
  | _ => none

def int? : Value → Option Int
  | .number (.int n) => some n
  | _ => none

def isNull : Value → Bool
  | .null => true
  | _ => false

/-- A whole number within 32 unsigned bits. -/
def uint32? (v : Value) : Option UInt32 := do
  let n ← v.int?
  if 0 ≤ n ∧ n < 4294967296 then some (UInt32.ofNat n.toNat) else none

def uint64? (v : Value) : Option UInt64 := do
  let n ← v.int?
  if 0 ≤ n ∧ n < 18446744073709551616 then some (UInt64.ofNat n.toNat) else none

def int64? (v : Value) : Option Int64 := do
  let n ← v.int?
  if -9223372036854775808 ≤ n ∧ n < 9223372036854775808 then some (Int64.ofInt n) else none

end Value

end PageScript.Json
