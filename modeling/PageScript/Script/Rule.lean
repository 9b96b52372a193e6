import PageScript.Effect
import PageScript.Text.Case
import PageScript.Script.Watermark
import PageScript.Script.Price

/-!
# Rules

A rule pairs a test of the script with the effects it plans.  `Rule.builtIn` holds the three rules
every interpretation begins with; each of them asks for keywords in the lower-cased text.
-/

namespace PageScript

open Json Text

/-- A script, its lower-cased text for keyword tests, and the time of its interpretation. -/
structure Script where
  text : String
  lowered : String
  now : Int64

def Script.ofText (text : String) (now : Int64) : Script :=
  ⟨text, lower text, now⟩

/-- Whether the lower-cased text contains a word. -/
def Script.mentions (s : Script) (word : String) : Bool :=
  contains word.toList s.lowered.toList

structure Rule where
  name : String
  applies : Script → Bool
  build : Script → List Effect

namespace Rule

def lockedPages : List UInt32 := [2, 3]

def editionTitle : String := "Document Edition"

def watermarkEffects (page : UInt32) (text : String) : List Effect :=
  [.addWatermark page text,
    .log ("Planned watermark on page " ++ Numeral.text page.toNat ++ " with text: \"" ++ text ++
      "\"")]

def watermark : Rule where
  name := "watermark"
  applies s := s.mentions "watermark"
  build s :=
    let w := Script.Watermark.wording s.text.toList
    watermarkEffects w.pageOrDefault w.textOrDefault

/-- The price a script names, or the default when it names none that can be charged. -/
def lockPrice (text : String) : UInt64 :=
  ((Script.Price.find? text.toList).bind (·.cents?)).getD Effect.defaultLockPrice

def lockEffects (price : UInt64) : List Effect :=
  [.lockPages lockedPages (some price),
    .log ("Will lock pages [2,3] for " ++ Numeral.text price.toNat ++ " cents.")]

def lockPages : Rule where
  name := "lock-pages"
  applies s := s.mentions "pay" || s.mentions "unlock"
  build s := lockEffects (lockPrice s.text)

def mint : Rule where
  name := "mint"
  applies s := s.mentions "mint"
  build s :=
    [.mintNft (Members.ofList [("title", .string editionTitle), ("timestamp", .int s.now.toInt)]),
      .log "Will mint NFT for current doc version."]

def builtIn : List Rule := [watermark, lockPages, mint]

def fallbackWord : String := "example"

/-- The word in the middle of the script, the later of two middle ones. -/
def middleWord (text : String) : String :=
  let ws := words text.toList
  (ws[ws.length / 2]?.map String.ofList).getD fallbackWord

/-- What is planned when the rules that apply build nothing. -/
def fallback (s : Script) : List Effect :=
  [.log "No direct heuristic match — defaulting to highlight.",
    .highlightText (middleWord s.text)]

end Rule

end PageScript
