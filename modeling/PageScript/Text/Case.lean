import PageScript.Text.Case.Table

/-!
# Lower case

`lower` is the full lower-case mapping of Unicode without a locale.  Every letter but two goes to
one letter by itself.  The dotted capital I becomes a small i and a combining dot.  A capital
sigma becomes the final form at the end of a word: when the nearest letter before it that is not
passed over has a case, and the nearest one after it has none.
-/

namespace PageScript.Text

namespace Case

def inRanges (ranges : List (Nat × Nat)) (c : Char) : Bool :=
  ranges.any fun r => r.1 ≤ c.toNat && c.toNat ≤ r.2

def isCased (c : Char) : Bool := inRanges cased c

def isIgnorable (c : Char) : Bool := inRanges ignorable c

def Lowering.covers (r : Lowering) (n : Nat) : Bool :=
  r.first ≤ n && n ≤ r.last && (n - r.first) % r.step == 0

/-- The lower case of a letter by itself; other characters stay. -/
def lowerChar (c : Char) : Char :=
  match lowering.find? (·.covers c.toNat) with
  | some r => Char.ofNat (c.toNat + r.offset).toNat
  | none => c

/-- Whether the first of these that is not passed over has a case. -/
def meetsCased (cs : List Char) : Bool :=
  match cs.dropWhile isIgnorable with
  | [] => false
  | c :: _ => isCased c

/-- The lower case of a text, given the characters before it in reverse. -/
def lowerAfter (before : List Char) : List Char → List Char
  | [] => []
  | c :: rest =>
    let here :=
      if c = 'Σ' then [if meetsCased before && !meetsCased rest then 'ς' else 'σ']
      else if c = 'İ' then ['i', '\u0307']
      else [lowerChar c]
    here ++ lowerAfter (c :: before) rest

end Case

def lower (s : String) : String :=
  String.ofList (Case.lowerAfter [] s.toList)

end PageScript.Text
