import PageScript.Hook
import PageScript.Json.Layout

/-!
# The console

A console prints a line for every log message and every document effect it is told of, and keeps
the document effects for a panel, the newest first.  The effect goes onto the panel before its
line is printed, so it stays there when the printing fails.

The output it writes to may fail on some of the lines, which are counted from one whether they
fail or not.  A line that fails is not printed at all: lines that are cut off, and a failure only
when the output is flushed, are not modelled.
-/

namespace PageScript

open Json

/-- A document effect that reached the console. -/
inductive Applied where
  | watermark (page : UInt32) (text : String)
  | highlight (text : String)
  | lockPages (pages : List UInt32) (priceCents : Option UInt64)
  | mintNft (metadata : Members)

structure Console where
  /-- The numbers of the lines that cannot be printed. -/
  broken : List Nat
  /-- How many lines it was asked to print. -/
  asked : Nat
  output : String
  applied : List Applied

namespace Console

def fresh (broken : List Nat) : Console := ⟨broken, 0, "", []⟩

/-- Cents as dollars, with two places. -/
def dollars (cents : Nat) : String :=
  let rest := cents % 100
  Numeral.text (cents / 100) ++ "." ++ Numeral.text (rest / 10) ++ Numeral.text (rest % 10)

/-- The greatest price that can be shown. -/
def greatestPrice : Nat := 9223372036854775807

def describeLock (pages : List UInt32) (cents : Nat) : String :=
  "Locked pages [" ++ ", ".intercalate (pages.map fun p => Numeral.text p.toNat) ++ "] for $" ++
    dollars cents

/-- Prints a line after a prompt. -/
def println (line : String) : StateM Console (Except String Unit) := fun c =>
  let asked := c.asked + 1
  if asked ∈ c.broken then (.error "console closed", { c with asked })
  else (.ok (), { c with asked, output := c.output ++ "> " ++ line ++ "\n" })

/-- Puts an effect onto the panel, then prints its line. -/
def apply (effect : Applied) (line : String) : StateM Console (Except String Unit) := do
  modify fun c => { c with applied := effect :: c.applied }
  println ("EFFECT APPLIED: " ++ line)

def respond : HookCall → StateM Console (Except String Unit)
  | .log message => println message
  | .watermark page text =>
    apply (.watermark page text)
      ("Watermark on page " ++ Numeral.text page.toNat ++ " with text \"" ++ text ++ "\"")
  | .highlight text => apply (.highlight text) ("Highlight text \"" ++ text ++ "\"")
  | .lockPages pages price =>
    let cents := (price.getD 0).toNat
    if greatestPrice < cents then return .error "number too large to fit in target type"
    else apply (.lockPages pages price) (describeLock pages cents)
  | .mintNft metadata =>
    apply (.mintNft metadata) ("Minted NFT with metadata: " ++ (Value.object metadata).compact)

def observer : Observer Console := ⟨respond⟩

end Console

end PageScript
