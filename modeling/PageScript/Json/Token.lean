import PageScript.Json.Number

/-!
# Tokens of JSON text

`Token.scan` cuts the bytes of a text into tokens, one byte at a time.  Numbers are checked
against the grammar here and strings only for what every string has to meet: no raw control
character, no unknown escape, four hexadecimal digits after `\u`.  Whether the bytes of a string
are UTF-8 and its surrogates come in pairs is asked by `Text.decode?`, so that a string nobody
reads may fail both.
-/

namespace PageScript.Json

namespace Text

/-- A byte of a string, or the code unit of a `\u` escape. -/
inductive Piece where
  | byte (b : UInt8)
  | unit (n : Nat)
deriving DecidableEq

def isHigh (n : Nat) : Bool := 0xD800 ≤ n && n < 0xDC00

def isLow (n : Nat) : Bool := 0xDC00 ≤ n && n < 0xE000

/-- The character of a high and a low surrogate. -/
def pairChar (high low : Nat) : Char :=
  Char.ofNat (0x10000 + (high - 0xD800) * 0x400 + (low - 0xDC00))

/-- The bytes of a string; nothing when a surrogate stands alone. -/
def bytes? : List Piece → Option (List UInt8)
  | [] => some []
  | .byte b :: rest => (bytes? rest).map (b :: ·)
  | .unit h :: .unit l :: rest =>
    if isHigh h then
      if isLow l then (bytes? rest).map (String.utf8EncodeChar (pairChar h l) ++ ·) else none
    else if isLow h then none
    else (bytes? (.unit l :: rest)).map (String.utf8EncodeChar (Char.ofNat h) ++ ·)
  | .unit n :: rest =>
    if isHigh n || isLow n then none
    else (bytes? rest).map (String.utf8EncodeChar (Char.ofNat n) ++ ·)

/-- The string that the pieces spell, if its surrogates are paired and its bytes are UTF-8. -/
def decode? (pieces : List Piece) : Option String := do
  String.fromUTF8? (← bytes? pieces).toByteArray

end Text

inductive Token where
  | openArray
  | closeArray
  | openObject
  | closeObject
  | comma
  | colon
  | null
  | bool (b : Bool)
  | number (n : Spelling)
  | string (pieces : List Text.Piece)
deriving DecidableEq

namespace Token

/-- A token that is not complete yet; what it has so far is kept in reverse. -/
inductive Open where
  | none
  | word (letters : List Char)
  | number (letters : List Char)
  | string (pieces : List Text.Piece)
  | escape (pieces : List Text.Piece)
  | unit (pieces : List Text.Piece) (value : Nat) (missing : Nat)

/-- The tokens read so far, in reverse, and the one being read. -/
structure Scan where
  tokens : List Token
  current : Open

def isBlank (b : UInt8) : Bool :=
  b == 0x20 || b == 0x0A || b == 0x0D || b == 0x09

def isLetter (b : UInt8) : Bool :=
  (0x61 ≤ b && b ≤ 0x7A) || (0x41 ≤ b && b ≤ 0x5A)

def isDigit (b : UInt8) : Bool :=
  0x30 ≤ b && b ≤ 0x39

/-- Bytes that may stand in a numeral: digits, signs, the point, `e` and `E`. -/
def inNumber (b : UInt8) : Bool :=
  isDigit b || b == 0x2B || b == 0x2D || b == 0x2E || b == 0x65 || b == 0x45

def toChar (b : UInt8) : Char :=
  Char.ofNat b.toNat

def ofWord (letters : List Char) : Option Token :=
  if letters = ['n', 'u', 'l', 'l'] then some .null
  else if letters = ['t', 'r', 'u', 'e'] then some (.bool true)
  else if letters = ['f', 'a', 'l', 's', 'e'] then some (.bool false)
  else none

def punctuation? (b : UInt8) : Option Token :=
  if b = 0x5B then some .openArray
  else if b = 0x5D then some .closeArray
  else if b = 0x7B then some .openObject
  else if b = 0x7D then some .closeObject
  else if b = 0x2C then some .comma
  else if b = 0x3A then some .colon
  else none

def hexValue? (b : UInt8) : Option Nat :=
  if isDigit b then some (b.toNat - 0x30)
  else if 0x61 ≤ b && b ≤ 0x66 then some (b.toNat - 0x57)
  else if 0x41 ≤ b && b ≤ 0x46 then some (b.toNat - 0x37)
  else none

/-- The byte a one-letter escape stands for. -/
def shortEscape? (b : UInt8) : Option UInt8 :=
  if b = 0x22 ∨ b = 0x5C ∨ b = 0x2F then some b
  else if b = 0x62 then some 0x08
  else if b = 0x66 then some 0x0C
  else if b = 0x6E then some 0x0A
  else if b = 0x72 then some 0x0D
  else if b = 0x74 then some 0x09
  else none

/-- A byte where a token may begin. -/
def begin (tokens : List Token) (b : UInt8) : Option Scan :=
  if isBlank b then some ⟨tokens, .none⟩
  else if b = 0x22 then some ⟨tokens, .string []⟩
  else if isDigit b || b == 0x2D then some ⟨tokens, .number [toChar b]⟩
  else if isLetter b then some ⟨tokens, .word [toChar b]⟩
  else (punctuation? b).map fun t => ⟨t :: tokens, .none⟩

/-- Ends a word or a number; inside a string nothing ends. -/
def flush (s : Scan) : Option (List Token) :=
  match s.current with
  | .none => some s.tokens
  | .word letters => (ofWord letters.reverse).map (· :: s.tokens)
  | .number letters => (Spelling.ofChars? letters.reverse).map (.number · :: s.tokens)
  | .string _ | .escape _ | .unit _ _ _ => none

def step (s : Scan) (b : UInt8) : Option Scan :=
  match s.current with
  | .none => begin s.tokens b
  | .word letters =>
    if isLetter b then some ⟨s.tokens, .word (toChar b :: letters)⟩
    else (flush s).bind (begin · b)
  | .number letters =>
    if inNumber b then some ⟨s.tokens, .number (toChar b :: letters)⟩
    else (flush s).bind (begin · b)
  | .string pieces =>
    if b = 0x22 then some ⟨.string pieces.reverse :: s.tokens, .none⟩
    else if b = 0x5C then some ⟨s.tokens, .escape pieces⟩
    else if b < 0x20 then none
    else some ⟨s.tokens, .string (.byte b :: pieces)⟩
  | .escape pieces =>
    if b = 0x75 then some ⟨s.tokens, .unit pieces 0 3⟩
    else (shortEscape? b).map fun e => ⟨s.tokens, .string (.byte e :: pieces)⟩
  | .unit pieces value missing =>
    (hexValue? b).map fun d =>
      match missing with
      | 0 => ⟨s.tokens, .string (.unit (16 * value + d) :: pieces)⟩
      | m + 1 => ⟨s.tokens, .unit pieces (16 * value + d) m⟩

def scan (bytes : List UInt8) : Option (List Token) := do
  let s ← bytes.foldlM step ⟨[], .none⟩
  return (← flush s).reverse

end Token

end PageScript.Json
