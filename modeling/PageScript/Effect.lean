import PageScript.Json.Format

/-!
# Effects

An effect is one unit of planned document, payment or ledger work.  In JSON it is an object whose
`op` names its kind, the first member when written.

`Effect.ofValue?` reads one.  Where `op` names no known kind, or the other members do not fit the
kind it names, an object is still read, as the unknown effect of that `op`.  A known kind may also
be given by its place in `Effect.kinds`, and an effect of a known kind as an array of its fields
in order after the `op`; these two ways have no unknown effect to fall back on.
-/

namespace PageScript

open Json

inductive Effect where
  | log (message : String)
  | addWatermark (page : UInt32) (text : String)
  | highlightText (text : String)
  | lockPages (pages : List UInt32) (priceCents : Option UInt64)
  | mintNft (metadata : Members)
  | runPayment (priceCents : UInt64) (reason : Option String)
  | unknown (op : String)

namespace Effect

/-- What unlocking pages costs when a plan does not name a price. -/
def defaultLockPrice : UInt64 := 500

/-- The kinds that can be carried out. -/
def kinds : List String :=
  ["log", "addWatermark", "highlightText", "lockPages", "mintNFT", "runPayment"]

def kind : Effect → String
  | .log _ => "log"
  | .addWatermark _ _ => "addWatermark"
  | .highlightText _ => "highlightText"
  | .lockPages _ _ => "lockPages"
  | .mintNft _ => "mintNFT"
  | .runPayment _ _ => "runPayment"
  | .unknown op => op

def pagesValue (pages : List UInt32) : Value :=
  .array (pages.map fun p => .nat p.toNat)

def members : Effect → List (String × Value)
  | .log message => [("message", .string message)]
  | .addWatermark page text => [("page", .nat page.toNat), ("text", .string text)]
  | .highlightText text => [("text", .string text)]
  | .lockPages pages price =>
    ("pages", pagesValue pages) :: optionalMember "priceCents" (fun c => .nat c.toNat) price
  | .mintNft metadata => [("metadata", .object metadata)]
  | .runPayment price reason =>
    ("priceCents", .nat price.toNat) :: optionalMember "reason" .string reason
  | .unknown _ => []

def toValue (e : Effect) : Value :=
  .object (("op", .string e.kind) :: e.members)

def pages? (v : Value) : Option (List UInt32) := do
  (← v.array?).mapM Value.uint32?

/-- Reads the fields of a known kind. -/
def ofFields? (kind : String) (v : Value) : Option Effect := do
  match kind with
  | "log" =>
    let [message] ← v.fields? ["message"] | none
    return .log (← required Value.string? message)
  | "addWatermark" =>
    let [page, text] ← v.fields? ["page", "text"] | none
    return .addWatermark (← required Value.uint32? page) (← required Value.string? text)
  | "highlightText" =>
    let [text] ← v.fields? ["text"] | none
    return .highlightText (← required Value.string? text)
  | "lockPages" =>
    let [pages, price] ← v.fields? ["pages", "priceCents"] | none
    return .lockPages (← required pages? pages) (← optional Value.uint64? price)
  | "mintNFT" =>
    let [metadata] ← v.fields? ["metadata"] | none
    return .mintNft (← required Value.members? metadata)
  | "runPayment" =>
    let [price, reason] ← v.fields? ["priceCents", "reason"] | none
    return .runPayment (← required Value.uint64? price) (← optional Value.string? reason)
  | _ => none

/-- The known kind that an `op` names or whose place it gives. -/
def kindOf? : Value → Option String
  | .string s => if s ∈ kinds then some s else none
  | .number (.int n) => if 0 ≤ n then kinds[n.toNat]? else none
  | _ => none

def ofKind? (op rest : Value) : Option Effect := do
  ofFields? (← kindOf? op) rest

def ofValue? : Value → Option Effect
  | .object members =>
    match pick ["op"] members with
    | some [some op] =>
      match ofKind? op (.object (members.filter (·.1 ≠ "op"))) with
      | some e => some e
      | none => op.string?.map .unknown
    | _ => none
  | .array (op :: items) => ofKind? op (.array items)
  | _ => none

def format : Format Effect := .ofValue toValue ofValue?

end Effect

end PageScript
