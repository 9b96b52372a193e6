import PageScript.Json.Token
import PageScript.Json.Value

/-!
# Outlines of JSON text

An `Outline` is the structure of a text with its strings and numbers still as spelled.
`Outline.ofTokens?` keeps the containers it is inside of on a list, so a text may nest as deep as
it likes.

`Outline.value?` reads an outline strictly: strings have to decode, numbers have to denote
something, and arrays and objects may nest only as deep as there is room.  A reader that passes
over part of an outline asks none of this of that part.
-/

namespace PageScript.Json

inductive Outline where
  | null
  | bool (b : Bool)
  | number (n : Spelling)
  | string (pieces : List Text.Piece)
  | array (items : List Outline)
  | object (members : List (List Text.Piece × Outline))

namespace Outline

/-- A container that is still open: what it holds so far, in reverse, and the key waiting for its
value. -/
inductive Frame where
  | array (items : List Outline)
  | object (members : List (List Text.Piece × Outline)) (key : List Text.Piece)

mutual

/-- Reads a value inside the open containers. -/
def expect (stack : List Frame) : List Token → Option Outline
  | .null :: rest => accept .null stack rest
  | .bool b :: rest => accept (.bool b) stack rest
  | .number n :: rest => accept (.number n) stack rest
  | .string pieces :: rest => accept (.string pieces) stack rest
  | .openArray :: .closeArray :: rest => accept (.array []) stack rest
  | .openArray :: rest => expect (.array [] :: stack) rest
  | .openObject :: .closeObject :: rest => accept (.object []) stack rest
  | .openObject :: .string key :: .colon :: rest => expect (.object [] key :: stack) rest
  | _ => none

/-- Gives a complete value to the innermost open container. -/
def accept (v : Outline) : List Frame → List Token → Option Outline
  | [], [] => some v
  | .array items :: stack, .comma :: rest => expect (.array (v :: items) :: stack) rest
  | .array items :: stack, .closeArray :: rest =>
    accept (.array (v :: items).reverse) stack rest
  | .object members key :: stack, .comma :: .string next :: .colon :: rest =>
    expect (.object ((key, v) :: members) next :: stack) rest
  | .object members key :: stack, .closeObject :: rest =>
    accept (.object ((key, v) :: members).reverse) stack rest
  | _, _ => none

end

def ofTokens? (tokens : List Token) : Option Outline :=
  expect [] tokens

def ofBytes? (bytes : ByteArray) : Option Outline := do
  ofTokens? (← Token.scan bytes.data.toList)

mutual

/-- The value an outline denotes, when there is room to nest as deep as it does. -/
def value? : Nat → Outline → Option Value
  | _, .null => some .null
  | _, .bool b => some (.bool b)
  | _, .number n => n.number?.map .number
  | _, .string pieces => (Text.decode? pieces).map .string
  | 0, .array _ => none
  | room + 1, .array items => (values? room items).map .array
  | 0, .object _ => none
  | room + 1, .object members => (memberValues? room members).map .object

def values? : Nat → List Outline → Option (List Value)
  | _, [] => some []
  | room, o :: rest => do
    let v ← o.value? room
    return v :: (← values? room rest)

def memberValues? : Nat → List (List Text.Piece × Outline) → Option (List (String × Value))
  | _, [] => some []
  | room, (key, o) :: rest => do
    let k ← Text.decode? key
    let v ← o.value? room
    return (k, v) :: (← memberValues? room rest)

end

/-- How many arrays and objects a text may open inside one another. -/
def maxDepth : Nat := 127

end Outline

/-- The value of a text, members in the order in which they stand. -/
def Value.ofBytes? (bytes : ByteArray) : Option Value := do
  (← Outline.ofBytes? bytes).value? Outline.maxDepth

end PageScript.Json
