import PageScript.Json.Layout
import PageScript.Proofs.Json.Outlined

/-!
# Scanning written values

A word or a number is not known to be complete before the next byte is seen, so the scan of a
written value may end with it still open.  It is `Token.Settled` all the same: at the end of the
text the token counts as read, and so it does before any byte that cannot belong to it, which are
the only ones a layout puts there.

A value whose numbers are kept exactly is scanned as the tokens of its outline, in either layout
(`Value.scanFrom_chars`), so the text has that outline (`Value.ofBytes?_chars`).
-/

namespace PageScript.Json

namespace Token

structure Settled (ts : List Token) (s : Scan) : Prop where
  flush_eq : flush s = some ts
  step_eq : ∀ b, isLetter b = false → inNumber b = false → step s b = begin ts b

theorem settled_none (ts : List Token) : Settled ts ⟨ts, .none⟩ :=
  ⟨rfl, fun _ _ _ => rfl⟩

theorem settled_word {ts : List Token} {letters : List Char} {t : Token}
    (h : ofWord letters.reverse = some t) : Settled (t :: ts) ⟨ts, .word letters⟩ := by
  have hf : flush ⟨ts, .word letters⟩ = some (t :: ts) := by simp [flush, h]
  refine ⟨hf, fun b hb _ => ?_⟩
  simp [step, hb, hf]

theorem settled_number {ts : List Token} {letters : List Char} {n : Spelling}
    (h : Spelling.ofChars? letters.reverse = some n) :
    Settled (.number n :: ts) ⟨ts, .number letters⟩ := by
  have hf : flush ⟨ts, .number letters⟩ = some (.number n :: ts) := by simp [flush, h]
  refine ⟨hf, fun b _ hb => ?_⟩
  simp [step, hb, hf]

/-- The characters a layout puts after a value, and their tokens. -/
def marks : List (Char × Token) :=
  [(',', .comma), (']', .closeArray), ('}', .closeObject)]

theorem marks_bytes : ∀ m ∈ marks, m.1.toNat < 128 ∧ isLetter (UInt8.ofNat m.1.toNat) = false ∧
    inNumber (UInt8.ofNat m.1.toNat) = false ∧
    ∀ ts, begin ts (UInt8.ofNat m.1.toNat) = some ⟨m.2 :: ts, .none⟩ := by
  simp only [marks, List.forall_mem_cons, List.not_mem_nil, false_imp_iff, implies_true, and_true]
  refine ⟨⟨by decide, by decide, by decide, fun ts => rfl⟩,
    ⟨by decide, by decide, by decide, fun ts => rfl⟩,
    ⟨by decide, by decide, by decide, fun ts => rfl⟩⟩

theorem scanFrom_mark {ts : List Token} {s : Scan} (hs : Settled ts s) {c : Char} {t : Token}
    (hm : (c, t) ∈ marks) (cs : List Char) :
    scanFrom s (c :: cs) = scanFrom ⟨t :: ts, .none⟩ cs := by
  obtain ⟨hc, hl, hn, hb⟩ := marks_bytes _ hm
  rw [scanFrom_cons hc, hs.step_eq _ hl hn, hb, Option.bind_some]

theorem scanFrom_blanks (ts : List Token) (n : ℕ) (cs : List Char) :
    scanFrom ⟨ts, .none⟩ (List.replicate n ' ' ++ cs) = scanFrom ⟨ts, .none⟩ cs := by
  induction n with
  | zero => simp
  | succ n ih =>
    rw [List.replicate_succ, List.cons_append, scanFrom_cons (by decide)]
    exact ih

theorem scanFrom_newline (lay : Layout) (ts : List Token) (cs : List Char) :
    scanFrom ⟨ts, .none⟩ (lay.newline ++ cs) = scanFrom ⟨ts, .none⟩ cs := by
  cases lay with
  | compact => rfl
  | indented n =>
    rw [Layout.newline, List.cons_append, scanFrom_cons (by decide)]
    exact scanFrom_blanks ts (2 * n) cs

theorem scanFrom_newline_mark {ts : List Token} {s : Scan} (hs : Settled ts s) (lay : Layout)
    {c : Char} {t : Token} (hm : (c, t) ∈ marks) (cs : List Char) :
    scanFrom s (lay.newline ++ c :: cs) = scanFrom ⟨t :: ts, .none⟩ cs := by
  cases lay with
  | compact => exact scanFrom_mark hs hm cs
  | indented n =>
    have hb : step s (UInt8.ofNat '\n'.toNat) = some ⟨ts, .none⟩ :=
      hs.step_eq _ (by decide) (by decide)
    rw [Layout.newline, List.cons_append, scanFrom_cons (by decide), hb, Option.bind_some,
      scanFrom_blanks, scanFrom_mark (settled_none ts) hm]

theorem scanFrom_colon (lay : Layout) (ts : List Token) (cs : List Char) :
    scanFrom ⟨ts, .none⟩ (lay.colon ++ cs) = scanFrom ⟨.colon :: ts, .none⟩ cs := by
  cases lay <;> rfl

theorem digit_byte : ∀ n, 48 ≤ n → n ≤ 57 →
    isDigit (UInt8.ofNat n) = true ∧ toChar (UInt8.ofNat n) = Char.ofNat n := by
  intro n h1 h2
  interval_cases n <;> decide

theorem isDigit_byte {c : Char} (h : c.isDigit = true) :
    c.toNat < 128 ∧ isDigit (UInt8.ofNat c.toNat) = true ∧
      toChar (UInt8.ofNat c.toNat) = c := by
  simp only [Char.isDigit, Bool.and_eq_true, decide_eq_true_eq, ge_iff_le,
    UInt32.le_iff_toNat_le] at h
  have h1 : 48 ≤ c.toNat := h.1
  have h2 : c.toNat ≤ 57 := h.2
  obtain ⟨hd, hc⟩ := digit_byte _ h1 h2
  exact ⟨by omega, hd, by rw [hc, Char.ofNat_toNat]⟩

theorem scanFrom_digits {cs : List Char} (h : ∀ c ∈ cs, c.isDigit = true) (ts : List Token)
    (letters : List Char) :
    scanFrom ⟨ts, .number letters⟩ cs = some ⟨ts, .number (cs.reverse ++ letters)⟩ := by
  induction cs generalizing letters with
  | nil => rfl
  | cons c cs ih =>
    obtain ⟨hc, hd, hb⟩ := isDigit_byte (h c List.mem_cons_self)
    have hs : step ⟨ts, .number letters⟩ (UInt8.ofNat c.toNat) =
        some ⟨ts, .number (c :: letters)⟩ := by
      simp [step, inNumber, hd, hb]
    rw [scanFrom_cons hc, hs, Option.bind_some, ih fun c hc => h c (List.mem_cons_of_mem _ hc)]
    simp

theorem begin_digit {c : Char} (h : c.isDigit = true) (ts : List Token) :
    begin ts (UInt8.ofNat c.toNat) = some ⟨ts, .number [c]⟩ := by
  obtain ⟨-, hd, hb⟩ := isDigit_byte h
  have h1 : isBlank (UInt8.ofNat c.toNat) = false := by
    simp only [isDigit, Bool.and_eq_true, decide_eq_true_eq] at hd
    simp only [isBlank, Bool.or_eq_false_iff, beq_eq_false_iff_ne]
    refine ⟨⟨⟨?_, ?_⟩, ?_⟩, ?_⟩ <;> rintro he <;> simp [he] at hd
  have h2 : UInt8.ofNat c.toNat ≠ 0x22 := by
    intro he
    simp [he, isDigit] at hd
  simp [begin, h1, h2, hd, hb]

theorem scanFrom_ofInt (ts : List Token) (n : ℤ) :
    ∃ letters, scanFrom ⟨ts, .none⟩ (Numeral.ofInt n) = some ⟨ts, .number letters⟩ ∧
      letters.reverse = Numeral.ofInt n := by
  have hall := fun m => Numeral.isDigit_of_mem_digits m
  refine ⟨(Numeral.ofInt n).reverse, ?_, by simp⟩
  cases n with
  | ofNat m =>
    obtain ⟨c, cs, hcs⟩ := List.exists_cons_of_ne_nil (Numeral.digits_ne_nil m)
    have hm : ∀ d ∈ c :: cs, d.isDigit = true := hcs ▸ hall m
    have hc := hm c List.mem_cons_self
    rw [Numeral.ofInt, hcs, scanFrom_cons (isDigit_byte hc).1, step, begin_digit hc,
      Option.bind_some, scanFrom_digits fun d hd => hm d (List.mem_cons_of_mem _ hd)]
    simp
  | negSucc m =>
    have hopen : scanFrom ⟨ts, .none⟩ ['-'] = some ⟨ts, .number ['-']⟩ := rfl
    rw [Numeral.ofInt, ← List.singleton_append, scanFrom_append_of_eq hopen,
      scanFrom_digits (hall (m + 1))]
    simp

end Token

namespace Value

open Token

theorem scanFrom_number {n : Number} (h : n.Exact) (ts : List Token) :
    ∃ s, scanFrom ⟨ts, .none⟩ n.chars = some s ∧ Settled (.number n.spelling :: ts) s := by
  cases n with
  | int n =>
    obtain ⟨letters, hs, hl⟩ := scanFrom_ofInt ts n
    exact ⟨_, hs, settled_number (by rw [hl]; exact Spelling.ofChars?_ofInt n)⟩
  | double x =>
    obtain rfl : x = Number.negativeZero := h
    exact ⟨⟨ts, .number ['0', '.', '0', '-']⟩, rfl, settled_number rfl⟩

mutual

theorem scanFrom_chars (v : Value) (he : v.Exact) (lay : Layout) (ts : List Token) :
    ∃ s, scanFrom ⟨ts, .none⟩ (v.chars lay) = some s ∧
      Settled (v.outline.tokens.reverse ++ ts) s := by
  match v with
  | .null => exact ⟨⟨ts, .word ['l', 'l', 'u', 'n']⟩, by rw [chars]; rfl, settled_word rfl⟩
  | .bool true => exact ⟨⟨ts, .word ['e', 'u', 'r', 't']⟩, by rw [chars]; rfl, settled_word rfl⟩
  | .bool false =>
    exact ⟨⟨ts, .word ['e', 's', 'l', 'a', 'f']⟩, by rw [chars]; rfl, settled_word rfl⟩
  | .number n =>
    rw [chars, outline, Outline.tokens]
    exact scanFrom_number he ts
  | .string s =>
    rw [chars, outline, Outline.tokens]
    exact ⟨_, scanFrom_quote ts s, settled_none _⟩
  | .array [] =>
    exact ⟨⟨.closeArray :: .openArray :: ts, .none⟩, by rw [chars]; rfl, settled_none _⟩
  | .array (v :: rest) =>
    have hopen : scanFrom ⟨ts, .none⟩ ['['] = some ⟨.openArray :: ts, .none⟩ := rfl
    obtain ⟨s, hs, hset⟩ := scanFrom_chars v he.1 lay.deeper (.openArray :: ts)
    obtain ⟨s', hs', hset'⟩ := scanFrom_itemsChars rest he.2 lay.deeper hset
    refine ⟨⟨_, .none⟩, ?_, settled_none _⟩
    rw [chars, ← List.singleton_append, List.append_assoc, List.append_assoc, List.append_assoc,
      scanFrom_append_of_eq hopen, scanFrom_newline, List.append_assoc,
      scanFrom_append_of_eq hs, scanFrom_append_of_eq hs',
      scanFrom_newline_mark hset' lay (t := .closeArray) (by simp [marks])]
    simp [outline, outlines, Outline.tokens]
  | .object [] =>
    exact ⟨⟨.closeObject :: .openObject :: ts, .none⟩, by rw [chars]; rfl, settled_none _⟩
  | .object ((k, v) :: rest) =>
    have hopen : scanFrom ⟨ts, .none⟩ ['{'] = some ⟨.openObject :: ts, .none⟩ := rfl
    have hk := scanFrom_quote (.openObject :: ts) k
    obtain ⟨s, hs, hset⟩ := scanFrom_chars v he.1 lay.deeper
      (.colon :: .string (Text.pieces k) :: .openObject :: ts)
    obtain ⟨s', hs', hset'⟩ := scanFrom_membersChars rest he.2 lay.deeper hset
    refine ⟨⟨_, .none⟩, ?_, settled_none _⟩
    rw [chars, ← List.singleton_append, List.append_assoc, List.append_assoc, List.append_assoc,
      scanFrom_append_of_eq hopen, scanFrom_newline, List.append_assoc, List.append_assoc,
      List.append_assoc, scanFrom_append_of_eq hk, scanFrom_colon, scanFrom_append_of_eq hs,
      scanFrom_append_of_eq hs',
      scanFrom_newline_mark hset' lay (t := .closeObject) (by simp [marks])]
    simp [outline, memberOutlines, Outline.tokens]

theorem scanFrom_itemsChars (rest : List Value) (he : ItemsExact rest) (lay : Layout)
    {ts : List Token} {s : Scan} (hset : Settled ts s) :
    ∃ s', scanFrom s (itemsChars lay rest) = some s' ∧
      Settled ((Outline.itemsTokens (outlines rest)).reverse ++ ts) s' := by
  match rest with
  | [] => exact ⟨s, by simp [itemsChars], by simpa [outlines, Outline.itemsTokens] using hset⟩
  | v :: rest =>
    obtain ⟨s₁, hs, hset₁⟩ := scanFrom_chars v he.1 lay (.comma :: ts)
    obtain ⟨s₂, hs', hset₂⟩ := scanFrom_itemsChars rest he.2 lay hset₁
    refine ⟨s₂, ?_, by simpa [outlines, Outline.itemsTokens] using hset₂⟩
    rw [itemsChars, List.cons_append, scanFrom_mark hset (t := .comma) (by simp [marks]),
      scanFrom_newline, scanFrom_append_of_eq hs, hs']

theorem scanFrom_membersChars (rest : List (String × Value)) (he : MembersExact rest)
    (lay : Layout) {ts : List Token} {s : Scan} (hset : Settled ts s) :
    ∃ s', scanFrom s (membersChars lay rest) = some s' ∧
      Settled ((Outline.membersTokens (memberOutlines rest)).reverse ++ ts) s' := by
  match rest with
  | [] =>
    exact ⟨s, by simp [membersChars], by simpa [memberOutlines, Outline.membersTokens] using hset⟩
  | (k, v) :: rest =>
    have hk := scanFrom_quote (.comma :: ts) k
    obtain ⟨s₁, hs, hset₁⟩ := scanFrom_chars v he.1 lay
      (.colon :: .string (Text.pieces k) :: .comma :: ts)
    obtain ⟨s₂, hs', hset₂⟩ := scanFrom_membersChars rest he.2 lay hset₁
    refine ⟨s₂, ?_, by simpa [memberOutlines, Outline.membersTokens] using hset₂⟩
    rw [membersChars, List.cons_append, scanFrom_mark hset (t := .comma) (by simp [marks]),
      scanFrom_newline, List.append_assoc, List.append_assoc, scanFrom_append_of_eq hk,
      scanFrom_colon, scanFrom_append_of_eq hs, hs']

end

/-- A text that is scanned as the tokens of an outline has this outline. -/
theorem ofBytes?_of_settled {cs : List Char} {o : Outline} {s : Scan}
    (h : scanFrom ⟨[], .none⟩ cs = some s) (hs : Settled o.tokens.reverse s) :
    Outline.ofBytes? (String.ofList cs).toUTF8 = some o := by
  have hb : (String.ofList cs).toUTF8.data.toList = Text.bytesOf cs := by
    rw [Text.toUTF8_ofList, List.toList_data_toByteArray]
  have h : (Text.bytesOf cs).foldlM step ⟨[], .none⟩ = some s := h
  have hscan : scan (Text.bytesOf cs) = some o.tokens := by simp [scan, h, hs.flush_eq]
  rw [Outline.ofBytes?, hb, hscan]
  exact Outline.ofTokens?_tokens o

/-- The text of a value has the value's outline. -/
theorem ofBytes?_chars {v : Value} (he : v.Exact) (lay : Layout) :
    Outline.ofBytes? (String.ofList (v.chars lay)).toUTF8 = some v.outline := by
  obtain ⟨s, hs, hset⟩ := scanFrom_chars v he lay []
  exact ofBytes?_of_settled hs (by simpa using hset)

/-- So has the text of a value that ends its line. -/
theorem ofBytes?_line {v : Value} (he : v.Exact) (lay : Layout) :
    Outline.ofBytes? (String.ofList (v.chars lay ++ ['\n'])).toUTF8 = some v.outline := by
  obtain ⟨s, hs, hset⟩ := scanFrom_chars v he lay []
  rw [List.append_nil] at hset
  have hn : step s (UInt8.ofNat '\n'.toNat) = some ⟨v.outline.tokens.reverse, .none⟩ :=
    hset.step_eq _ (by decide) (by decide)
  refine ofBytes?_of_settled ?_ (settled_none _)
  rw [scanFrom_append_of_eq hs, scanFrom_cons (by decide), hn, Option.bind_some, scanFrom_nil]

end Value

end PageScript.Json
