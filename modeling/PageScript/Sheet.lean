import PageScript.Event
import PageScript.Failure
import PageScript.Session

/-!
# Listings as sheets

A listing is written as comma-separated cells, one record a row under a row of column names.  A
cell with a comma, a quote or a line break in it stands between quotes, with its quotes doubled.
Payloads and metadata are compact JSON in one cell; a session without metadata has an empty cell.
-/

namespace PageScript.Sheet

open Json

def needsQuotes (cell : List Char) : Bool :=
  cell.any fun c => c == ',' || c == '"' || c == '\r' || c == '\n'

def doubleQuotes (cell : List Char) : List Char :=
  cell.flatMap fun c => if c = '"' then ['"', '"'] else [c]

def cellChars (cell : String) : List Char :=
  if needsQuotes cell.toList then '"' :: doubleQuotes cell.toList ++ ['"'] else cell.toList

def rowChars : List String → List Char
  | [] => ['\n']
  | [cell] => cellChars cell ++ ['\n']
  | cell :: rest => cellChars cell ++ ',' :: rowChars rest

def text (rows : List (List String)) : String :=
  String.ofList (rows.flatMap rowChars)

def eventColumns : List String := ["id", "type", "timestamp", "payload"]

def eventRow (e : Event) : List String :=
  [e.id, e.kind, Numeral.intText e.timestamp.toInt, e.payload.compact]

def sessionColumns : List String :=
  ["id", "amount_cents", "currency", "status", "created_at", "metadata"]

def sessionRow (s : Session) : List String :=
  [s.id, Numeral.text s.amountCents.toNat, s.currency, s.status.name,
    Numeral.intText s.createdAt.toInt,
    (s.metadata.map fun m => (Value.object m).compact).getD ""]

def events (es : List Event) : String :=
  text (eventColumns :: es.map eventRow)

def sessions (ss : List Session) : String :=
  text (sessionColumns :: ss.map sessionRow)

/-- How many bytes are gathered before any of them goes out. -/
def bufferSize : Nat := 8192

/-- What becomes of a sheet that is written to a closed sink: it fails at the end if the buffer
takes all of it, and on the way if not. -/
def failureWhenClosed (sheet : String) : Failure :=
  if sheet.utf8ByteSize ≤ bufferSize then .inOut .sinkClosed else .csv .sinkClosed

end PageScript.Sheet
