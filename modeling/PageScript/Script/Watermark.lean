import PageScript.Text.Blank
import PageScript.Text.Search

/-!
# What a script says about its watermark

A script mentions a watermark by the word in any case.  From the end of its first mention on, up
to the end of the line, the last page clause is looked for, and from the end of that clause, or of
the mention if there is none, the last text clause.

A page clause is the word `page`, white space and a number; a text clause is the word `text`,
white space or none, and a text between quotes.  Either quote ends a text, whichever began it.
The white space in a clause may reach into the next line.
-/

namespace PageScript.Script.Watermark

open Text

def mention : List Char := ['w', 'a', 't', 'e', 'r', 'm', 'a', 'r', 'k']

def defaultPage : UInt32 := 1

def defaultText : String := "CONFIDENTIAL"

/-- The digits of a page clause at the front, and what follows it. -/
def pageClause? (cs : List Char) : Option (List Char × List Char) := do
  let afterWord ← dropWord? ['p', 'a', 'g', 'e'] cs
  let afterBlank := afterWord.dropWhile isBlank
  let digits := afterBlank.takeWhile Char.isDigit
  if (afterWord.takeWhile isBlank).isEmpty || digits.isEmpty then none
  else some (digits, afterBlank.dropWhile Char.isDigit)

def isQuote (c : Char) : Bool := c == '"' || c == '\''

/-- The text of a text clause at the front. -/
def textClause? (cs : List Char) : Option (List Char) := do
  match (← dropWord? ['t', 'e', 'x', 't'] cs).dropWhile isBlank with
  | q :: rest =>
    if isQuote q then
      match rest.dropWhile fun c => !isQuote c && c != '\n' with
      | e :: _ => if isQuote e then some (rest.takeWhile fun c => !isQuote c) else none
      | [] => none
    else none
  | [] => none

/-- What the clauses say; a clause that is not there says nothing. -/
structure Wording where
  page : Option (List Char)
  text : Option (List Char)

def wordingAfter (cs : List Char) : Wording :=
  match lastOnLine pageClause? cs with
  | some (digits, rest) => ⟨some digits, lastOnLine textClause? rest⟩
  | none => ⟨none, lastOnLine textClause? cs⟩

def wording (cs : List Char) : Wording :=
  match afterWord? mention cs with
  | some rest => wordingAfter rest
  | none => ⟨none, none⟩

/-- A page number from 1 up to the greatest of 32 bits. -/
def pageNumber? (digits : List Char) : Option UInt32 :=
  let n := Numeral.value digits
  if 1 ≤ n ∧ n < 4294967296 then some (UInt32.ofNat n) else none

def Wording.pageOrDefault (w : Wording) : UInt32 :=
  (w.page.bind pageNumber?).getD defaultPage

def Wording.textOrDefault (w : Wording) : String :=
  (w.text.map String.ofList).getD defaultText

end PageScript.Script.Watermark
