import PageScript.Text.Numeral

/-!
# Searching text

Words are looked for from left to right.  `contains` asks for a word as it is spelled,
`dropWord?` and `afterWord?` for a lower-case word in any case; the Kelvin sign counts as a `k`,
which is what its case folding is.
-/

namespace PageScript.Text

def startsWith (word : List Char) (cs : List Char) : Bool :=
  word.isPrefixOf cs

def contains (word : List Char) : List Char → Bool
  | [] => word.isEmpty
  | c :: cs => startsWith word (c :: cs) || contains word cs

/-- Whether a character is this lower-case ASCII letter in either case. -/
def isLetter (letter c : Char) : Bool :=
  c == letter || c == letter.toUpper || (letter == 'k' && c == '\u212A')

/-- What follows a word that stands at the front, in any case. -/
def dropWord? : List Char → List Char → Option (List Char)
  | [], cs => some cs
  | _ :: _, [] => none
  | w :: word, c :: cs => if isLetter w c then dropWord? word cs else none

/-- What follows the first occurrence of a word, in any case. -/
def afterWord? (word : List Char) : List Char → Option (List Char)
  | [] => dropWord? word []
  | c :: cs =>
    match dropWord? word (c :: cs) with
    | some rest => some rest
    | none => afterWord? word cs

/-- The last place on the line at which `clause` reads something, and what it reads there. -/
def lastOnLine {α : Type} (clause : List Char → Option α) : List Char → Option α
  | [] => none
  | c :: cs =>
    if c = '\n' then none
    else
      match lastOnLine clause cs with
      | some a => some a
      | none => clause (c :: cs)

/-- A letter, digit or underscore of ASCII. -/
def inWord (c : Char) : Bool :=
  c.isAlphanum || c == '_'

/-- The maximal runs of word characters; `run` is the one being read, in reverse. -/
def wordsFrom (run : List Char) : List Char → List (List Char)
  | [] => if run.isEmpty then [] else [run.reverse]
  | c :: cs =>
    if inWord c then wordsFrom (c :: run) cs
    else if run.isEmpty then wordsFrom [] cs
    else run.reverse :: wordsFrom [] cs

def words (cs : List Char) : List (List Char) :=
  wordsFrom [] cs

end PageScript.Text
