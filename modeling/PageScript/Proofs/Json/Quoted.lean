import Mathlib.Tactic
import PageScript.Json.Layout
import PageScript.Json.Token

/-!
# Strings as written

A written string is scanned as one token (`Token.scanFrom_quote`).  Its pieces are `Text.pieces`:
the bytes of its characters, and a code unit for every control character without a short escape.
They decode to the string they come from (`Text.decode?_pieces`).
-/

namespace PageScript.Json

namespace Text

def bytesOf (cs : List Char) : List UInt8 :=
  cs.flatMap String.utf8EncodeChar

@[simp] theorem bytesOf_nil : bytesOf [] = [] := rfl

@[simp] theorem bytesOf_append (cs ds : List Char) :
    bytesOf (cs ++ ds) = bytesOf cs ++ bytesOf ds := by
  simp [bytesOf]

theorem bytesOf_cons (c : Char) (cs : List Char) :
    bytesOf (c :: cs) = String.utf8EncodeChar c ++ bytesOf cs := by
  simp [bytesOf]

theorem toUTF8_ofList (cs : List Char) :
    (String.ofList cs).toUTF8 = (bytesOf cs).toByteArray := by
  simp [String.toUTF8, bytesOf, List.utf8Encode]

def charPieces (c : Char) : List Piece :=
  if c.toNat < 32 ∧ c ∉ ['\n', '\r', '\t', '\x08', '\x0c'] then [.unit c.toNat]
  else (String.utf8EncodeChar c).map .byte

/-- What is scanned between the quotes of a written string. -/
def pieces (s : String) : List Piece :=
  s.toList.flatMap charPieces

theorem bytes?_map_byte (bs : List UInt8) (rest : List Piece) :
    bytes? (bs.map .byte ++ rest) = (bytes? rest).map (bs ++ ·) := by
  induction bs with
  | nil => simp
  | cons b bs ih =>
    simp only [List.map_cons, List.cons_append, bytes?, ih, Option.map_map]
    rfl

theorem bytes?_unit {n : ℕ} (h : n < 32) (rest : List Piece) :
    bytes? (.unit n :: rest) =
      (bytes? rest).map (String.utf8EncodeChar (Char.ofNat n) ++ ·) := by
  have hh : isHigh n = false := by simp [isHigh]; omega
  have hl : isLow n = false := by simp [isLow]; omega
  rcases rest with _ | ⟨_ | l, rest⟩ <;> simp [bytes?, hh, hl]

theorem bytes?_charPieces (c : Char) (rest : List Piece) :
    bytes? (charPieces c ++ rest) = (bytes? rest).map (String.utf8EncodeChar c ++ ·) := by
  unfold charPieces
  split
  · rename_i h
    rw [List.singleton_append, bytes?_unit h.1, Char.ofNat_toNat]
  · exact bytes?_map_byte _ rest

theorem bytes?_flatMap_charPieces (cs : List Char) :
    bytes? (cs.flatMap charPieces) = some (bytesOf cs) := by
  induction cs with
  | nil => rfl
  | cons c cs ih =>
    rw [List.flatMap_cons, bytes?_charPieces, ih, bytesOf_cons]
    rfl

theorem decode?_pieces (s : String) : decode? (pieces s) = some s := by
  have h : (bytesOf s.toList).toByteArray = s.toByteArray := String.utf8Encode_toList
  simp only [decode?, pieces, bytes?_flatMap_charPieces, Option.bind_eq_bind, Option.bind_some, h]
  rw [String.fromUTF8?, dif_pos s.isValidUTF8]
  rfl

end Text

namespace Token

open Json.Text

/-- Scans characters on from a given point. -/
def scanFrom (s : Scan) (cs : List Char) : Option Scan :=
  (bytesOf cs).foldlM step s

@[simp] theorem scanFrom_nil (s : Scan) : scanFrom s [] = some s := rfl

theorem scanFrom_append (s : Scan) (cs ds : List Char) :
    scanFrom s (cs ++ ds) = (scanFrom s cs).bind (scanFrom · ds) := by
  simp only [scanFrom, bytesOf_append, List.foldlM_append]
  rfl

theorem scanFrom_append_of_eq {s s' : Scan} {cs : List Char} (h : scanFrom s cs = some s')
    (ds : List Char) : scanFrom s (cs ++ ds) = scanFrom s' ds := by
  rw [scanFrom_append, h, Option.bind_some]

/-- A character of one byte takes one step. -/
theorem scanFrom_cons {c : Char} (h : c.toNat < 128) (s : Scan) (cs : List Char) :
    scanFrom s (c :: cs) = (step s (UInt8.ofNat c.toNat)).bind (scanFrom · cs) := by
  have hc : String.utf8EncodeChar c = [UInt8.ofNat c.toNat] := by
    rw [String.utf8EncodeChar]
    exact if_pos (Nat.le_of_lt_succ h)
  rw [scanFrom, bytesOf_cons, hc]
  rfl

/-- A byte that stands for itself in a string. -/
def IsPlain (b : UInt8) : Prop := 0x20 ≤ b ∧ b ≠ 0x22 ∧ b ≠ 0x5C

theorem isPlain_ofNat {n : ℕ} (h : n < 256) (h1 : 32 ≤ n) (h2 : n ≠ 34) (h3 : n ≠ 92) :
    IsPlain (UInt8.ofNat n) := by
  have hn : (UInt8.ofNat n).toNat = n := UInt8.toNat_ofNat_of_lt' h
  refine ⟨UInt8.le_iff_toNat_le.2 (by rw [hn]; exact h1), fun he => h2 ?_, fun he => h3 ?_⟩
  · rw [← hn, he]
    rfl
  · rw [← hn, he]
    rfl

theorem foldlM_step_plain (tokens : List Token) {bs : List UInt8} (h : ∀ b ∈ bs, IsPlain b)
    (ps : List Piece) :
    bs.foldlM step ⟨tokens, .string ps⟩ =
      some ⟨tokens, .string ((bs.map Piece.byte).reverse ++ ps)⟩ := by
  induction bs generalizing ps with
  | nil => rfl
  | cons b bs ih =>
    obtain ⟨h1, h2, h3⟩ := h b List.mem_cons_self
    have h4 : ¬ b < 0x20 := UInt8.not_lt.2 h1
    have hs : step ⟨tokens, .string ps⟩ b = some ⟨tokens, .string (.byte b :: ps)⟩ := by
      simp [step, h2, h3, h4]
    rw [List.foldlM_cons, hs]
    simpa using ih (fun b hb => h b (List.mem_cons_of_mem _ hb)) (.byte b :: ps)

theorem isPlain_of_mem_utf8EncodeChar {c : Char} (h1 : 32 ≤ c.toNat) (h2 : c ≠ '"')
    (h3 : c ≠ '\\') : ∀ b ∈ String.utf8EncodeChar c, IsPlain b := by
  have hv : c.val.toNat = c.toNat := rfl
  have hlt : c.toNat < 1114112 := by
    have := c.valid
    simp only [UInt32.isValidChar, Nat.isValidChar] at this
    omega
  have h4 : c.toNat ≠ 34 := fun h => h2 (Char.toNat_inj.1 h)
  have h5 : c.toNat ≠ 92 := fun h => h3 (Char.toNat_inj.1 h)
  intro b hb
  simp only [String.utf8EncodeChar, hv] at hb
  split at hb
  · rw [List.mem_singleton.1 hb]
    exact isPlain_ofNat (by omega) h1 h4 h5
  · split at hb
    · simp only [List.mem_cons, List.not_mem_nil, or_false] at hb
      rcases hb with rfl | rfl <;> exact isPlain_ofNat (by omega) (by omega) (by omega) (by omega)
    · split at hb <;> simp only [List.mem_cons, List.not_mem_nil, or_false] at hb
      · rcases hb with rfl | rfl | rfl <;>
          exact isPlain_ofNat (by omega) (by omega) (by omega) (by omega)
      · rcases hb with rfl | rfl | rfl | rfl <;>
          exact isPlain_ofNat (by omega) (by omega) (by omega) (by omega)

theorem hexValue?_hexDigit :
    ∀ d, d < 16 → (Numeral.hexDigit d).toNat < 128 ∧
      hexValue? (UInt8.ofNat (Numeral.hexDigit d).toNat) = some d := by
  decide

theorem scanFrom_unit (tokens : List Token) (ps : List Piece) {n : ℕ} (h : n < 32) :
    scanFrom ⟨tokens, .string ps⟩
        ['\\', 'u', '0', '0', Numeral.hexDigit (n / 16), Numeral.hexDigit (n % 16)] =
      some ⟨tokens, .string (.unit n :: ps)⟩ := by
  obtain ⟨hh, hhigh⟩ := hexValue?_hexDigit (n / 16) (by omega)
  obtain ⟨hl, hlow⟩ := hexValue?_hexDigit (n % 16) (by omega)
  have hopen : scanFrom ⟨tokens, .string ps⟩ ['\\', 'u', '0', '0'] =
      some ⟨tokens, .unit ps 0 1⟩ := rfl
  have hn : 16 * (n / 16) + n % 16 = n := by omega
  rw [show ['\\', 'u', '0', '0', Numeral.hexDigit (n / 16), Numeral.hexDigit (n % 16)] =
    ['\\', 'u', '0', '0'] ++ [Numeral.hexDigit (n / 16), Numeral.hexDigit (n % 16)] from rfl,
    scanFrom_append_of_eq hopen, scanFrom_cons hh]
  simp only [step, hhigh, Option.map_some, Option.bind_some]
  rw [scanFrom_cons hl]
  simp [step, hlow, hn]

theorem scanFrom_escape (tokens : List Token) (ps : List Piece) (c : Char) :
    scanFrom ⟨tokens, .string ps⟩ (escape c) =
      some ⟨tokens, .string ((charPieces c).reverse ++ ps)⟩ := by
  unfold escape
  split
  iterate 7 rfl
  rename_i hquote hslash hn hr ht hb hf
  split
  · rename_i h
    have hc : charPieces c = [.unit c.toNat] := if_pos ⟨h, by simp_all⟩
    rw [hc, scanFrom_unit tokens ps h]
    rfl
  · rename_i h
    have hc : charPieces c = (String.utf8EncodeChar c).map .byte := if_neg fun h' => h h'.1
    have hp := isPlain_of_mem_utf8EncodeChar (Nat.le_of_not_lt h) hquote hslash
    rw [hc, scanFrom, bytesOf_cons, bytesOf_nil, List.append_nil]
    exact foldlM_step_plain tokens hp ps

theorem scanFrom_flatMap_escape (tokens : List Token) (cs : List Char) (ps : List Piece) :
    scanFrom ⟨tokens, .string ps⟩ (cs.flatMap escape) =
      some ⟨tokens, .string ((cs.flatMap charPieces).reverse ++ ps)⟩ := by
  induction cs generalizing ps with
  | nil => rfl
  | cons c cs ih =>
    rw [List.flatMap_cons, scanFrom_append_of_eq (scanFrom_escape tokens ps c), ih]
    simp

/-- A written string is scanned as one token. -/
theorem scanFrom_quote (tokens : List Token) (s : String) :
    scanFrom ⟨tokens, .none⟩ (quote s) = some ⟨.string (pieces s) :: tokens, .none⟩ := by
  have hopen : scanFrom ⟨tokens, .none⟩ ['"'] = some ⟨tokens, .string []⟩ := rfl
  have hbody := scanFrom_flatMap_escape tokens s.toList []
  rw [quote, ← List.singleton_append, List.append_assoc, scanFrom_append_of_eq hopen,
    scanFrom_append_of_eq hbody, scanFrom_cons (by decide)]
  simp [step, pieces]

end Token

end PageScript.Json
