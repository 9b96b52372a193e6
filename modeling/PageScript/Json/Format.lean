import PageScript.Json.Layout
import PageScript.Json.Record

/-!
# Lists of records as JSON text

A `Format` says how one kind of record is written as a value and read from an outline.  A list of
records is a compact JSON array of them; `decode?` reads it back, or nothing when any part of the
text does not fit.
-/

namespace PageScript.Json

structure Format (α : Type) where
  write : α → Value
  /-- Reads a record, given how deep its text may nest. -/
  read? : Nat → Outline → Option α

namespace Format

variable {α : Type}

def encode (f : Format α) (records : List α) : ByteArray :=
  (Value.array (records.map f.write)).compact.toUTF8

def decode? (f : Format α) (bytes : ByteArray) : Option (List α) := do
  let (room, items) ← (← Outline.ofBytes? bytes).items? Outline.maxDepth
  items.mapM (f.read? room)

/-- One record that is the whole text. -/
def decodeOne? (f : Format α) (bytes : ByteArray) : Option α := do
  f.read? Outline.maxDepth (← Outline.ofBytes? bytes)

/-- A record that is read from a value. -/
def ofValue (write : α → Value) (read? : Value → Option α) : Format α where
  write := write
  read? room o := (o.value? room).bind read?

/-- Whole numbers within 32 unsigned bits. -/
def uint32 : Format UInt32 :=
  .ofValue (fun n => .nat n.toNat) Value.uint32?

end Format

end PageScript.Json
