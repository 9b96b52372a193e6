import PageScript.Proofs.Store.Nested
import PageScript.Sheet

/-!
# Sheets are read back

`Sheet.rows?` reads comma-separated cells by their grammar: a cell without quotes runs up to a comma
or the end of its line, one with quotes up to a quote that is not doubled.  What is written of rows
is read as these rows (`Sheet.rows?_text`), wherever commas, quotes and line breaks stand in them.

The row of a record then has its texts as they are, its numbers in decimal, and free-form data as
JSON text that is read as these data (`Sheet.EventRow`, `Sheet.SessionRow`).  A row tells its record
from every other one, so a sheet is that of one list only (`Sheet.sheets_lose_nothing`).
-/

namespace PageScript

open Json

namespace Numeral

theorem digit_eq_digitChar : ∀ d, d < 10 → digit d = Nat.digitChar d := by decide

theorem digits_eq_toDigits (n : ℕ) : digits n = Nat.toDigits 10 n := by
  rcases Nat.lt_or_ge n 10 with hn | hn
  · rw [digits_of_lt hn, digit_eq_digitChar n hn, Nat.toDigits_of_lt_base hn]
  · rw [digits_of_le hn, Nat.toDigits_of_base_le (by decide) hn, digits_eq_toDigits (n / 10),
      digit_eq_digitChar _ (by omega)]
termination_by n
decreasing_by omega

theorem text_eq_toString (n : ℕ) : text n = toString n := by
  rw [text, digits_eq_toDigits, Nat.toString_eq_ofList_toDigits]

theorem intText_eq_toString (n : ℤ) : intText n = toString n := by
  cases n with
  | ofNat n => exact text_eq_toString n
  | negSucc n =>
    have h : toString (Int.negSucc n) = "-" ++ toString (n + 1) := rfl
    rw [h, ← text_eq_toString, intText, ofInt, text, String.ofList_cons]
    rfl

theorem text_injective {m n : ℕ} (h : text m = text n) : m = n := by
  have hvalue := congrArg value (String.ofList_injective h)
  rwa [value_digits, value_digits] at hvalue

theorem intText_injective {m n : ℤ} (h : intText m = intText n) : m = n := by
  have hspelling := congrArg Spelling.ofChars? (String.ofList_injective h)
  rw [Spelling.ofChars?_ofInt, Spelling.ofChars?_ofInt, Option.some.injEq, Spelling.ofInt,
    Spelling.ofInt, Spelling.mk.injEq, decide_eq_decide] at hspelling
  obtain ⟨hsign, hdigits, -⟩ := hspelling
  have hvalue := congrArg value hdigits
  rw [value_digits, value_digits] at hvalue
  omega

end Numeral

namespace Json.Value

/-- The free-form data that a text is read as by a reader which lets it nest so deep. -/
def ofText? (room : ℕ) (text : String) : Option Value :=
  ((Outline.ofBytes? text.toUTF8).bind (Outline.value? room)).map sorted

/-- What is written of free-form data is read as these data, given room to nest. -/
theorem ofText?_compact {v : Value} (h : v.Canonical) (room : ℕ) :
    ofText? room v.compact = if v.depth ≤ room then some v else none := by
  rw [ofText?, compact, ofBytes?_chars h.exact, Option.bind_some]
  split_ifs with hd
  · rw [value?_outline v h.exact hd, Option.map_some, h.sorted_eq]
  · rw [Option.map_eq_none_iff, Option.eq_none_iff_forall_ne_some]
    exact fun w hw => hd (depth_le_of_value?_outline v hw)

end Json.Value

namespace Sheet

/-- Where a reader is: before a cell, in one without quotes, between the quotes of one, or after a
quote in it which may be the first of two. -/
inductive Place where
  | before
  | bare
  | quoted
  | closing

/-- Reads the rest of a sheet, given what was read of the cell and of the row that it begins in.
There has to be a line break at the end of every row, and nothing between a closing quote and the
end of its cell. -/
def readFrom? (p : Place) (cell : List Char) (row : List String) :
    List Char → Option (List (List String))
  | [] =>
    match p, row with
    | .before, [] => some []
    | _, _ => none
  | c :: rest =>
    match p, c with
    | .before, '"' => readFrom? .quoted [] row rest
    | .quoted, '"' => readFrom? .closing cell row rest
    | .closing, '"' => readFrom? .quoted (cell ++ ['"']) row rest
    | .quoted, c => readFrom? .quoted (cell ++ [c]) row rest
    | _, ',' => readFrom? .before [] (row ++ [String.ofList cell]) rest
    | _, '\n' => (readFrom? .before [] [] rest).map ((row ++ [String.ofList cell]) :: ·)
    | .closing, _ | _, '"' | _, '\r' => none
    | _, c => readFrom? .bare (cell ++ [c]) row rest

/-- The rows of a sheet, none if it is not well formed. -/
def rows? (s : String) : Option (List (List String)) :=
  readFrom? .before [] [] s.toList

theorem readFrom?_comma {p : Place} (hp : p ≠ .quoted) (cell : List Char) (row : List String)
    (rest : List Char) :
    readFrom? p cell row (',' :: rest) =
      readFrom? .before [] (row ++ [String.ofList cell]) rest := by
  cases p with
  | before | bare | closing => rfl
  | quoted => exact absurd rfl hp

theorem readFrom?_newline {p : Place} (hp : p ≠ .quoted) (cell : List Char) (row : List String)
    (rest : List Char) :
    readFrom? p cell row ('\n' :: rest) =
      (readFrom? .before [] [] rest).map ((row ++ [String.ofList cell]) :: ·) := by
  cases p with
  | before | bare | closing => rfl
  | quoted => exact absurd rfl hp

/-- A character that needs no quotes is read as it stands. -/
theorem readFrom?_plain {p : Place} (hp : p = .before ∨ p = .bare) {c : Char}
    (hc : needsQuotes [c] = false) (cell : List Char) (row : List String) (rest : List Char) :
    readFrom? p cell row (c :: rest) = readFrom? .bare (cell ++ [c]) row rest := by
  simp only [needsQuotes, List.any_cons, List.any_nil, Bool.or_false, Bool.or_eq_false_iff,
    beq_eq_false_iff_ne] at hc
  obtain ⟨⟨⟨hcomma, hquote⟩, hreturn⟩, hnewline⟩ := hc
  rcases hp with rfl | rfl <;> rw [readFrom?] <;> simp_all

theorem needsQuotes_cons (c : Char) (cs : List Char) :
    needsQuotes (c :: cs) = (needsQuotes [c] || needsQuotes cs) := by
  simp [needsQuotes]

theorem readFrom?_bare {cs : List Char} (h : needsQuotes cs = false) (cell : List Char)
    (row : List String) (rest : List Char) :
    readFrom? .bare cell row (cs ++ rest) = readFrom? .bare (cell ++ cs) row rest := by
  induction cs generalizing cell with
  | nil => rw [List.nil_append, List.append_nil]
  | cons c cs ih =>
    rw [needsQuotes_cons, Bool.or_eq_false_iff] at h
    rw [List.cons_append, readFrom?_plain (.inr rfl) h.1, ih h.2, List.append_assoc,
      List.singleton_append]

theorem readFrom?_quoted (cs cell : List Char) (row : List String) (rest : List Char) :
    readFrom? .quoted cell row (doubleQuotes cs ++ '"' :: rest) =
      readFrom? .closing (cell ++ cs) row rest := by
  induction cs generalizing cell with
  | nil => rw [List.append_nil]; rfl
  | cons c cs ih =>
    by_cases hc : c = '"'
    · subst hc
      have hdouble : doubleQuotes ('"' :: cs) = '"' :: '"' :: doubleQuotes cs := rfl
      rw [hdouble, List.cons_append, List.cons_append, readFrom?, readFrom?, ih, List.append_assoc,
        List.singleton_append]
    · have hsingle : doubleQuotes (c :: cs) = c :: doubleQuotes cs := by
        simp [doubleQuotes, hc]
      rw [hsingle, List.cons_append, readFrom?, ih, List.append_assoc, List.singleton_append]
      exact hc

/-- A written cell is read, however it is written, up to a place where the cell may end. -/
theorem readFrom?_cell (cell : String) (row : List String) (rest : List Char) :
    ∃ p, p ≠ Place.quoted ∧ readFrom? .before [] row (cellChars cell ++ rest) =
      readFrom? p cell.toList row rest := by
  rw [cellChars]
  split_ifs with hq
  · refine ⟨.closing, nofun, ?_⟩
    rw [List.append_assoc, List.cons_append, List.singleton_append, readFrom?, readFrom?_quoted,
      List.nil_append]
  · rw [Bool.not_eq_true] at hq
    generalize cell.toList = cs at hq ⊢
    rcases cs with _ | ⟨c, cs⟩
    · exact ⟨.before, nofun, rfl⟩
    · rw [needsQuotes_cons, Bool.or_eq_false_iff] at hq
      refine ⟨.bare, nofun, ?_⟩
      rw [List.cons_append, readFrom?_plain (.inl rfl) hq.1, readFrom?_bare hq.2]
      rfl

theorem readFrom?_row {cells : List String} (h : cells ≠ []) (row : List String)
    (rest : List Char) :
    readFrom? .before [] row (rowChars cells ++ rest) =
      (readFrom? .before [] [] rest).map ((row ++ cells) :: ·) := by
  induction cells generalizing row with
  | nil => exact absurd rfl h
  | cons cell cells ih =>
    rcases cells with _ | ⟨next, cells⟩
    · obtain ⟨p, hp, hcell⟩ := readFrom?_cell cell row ('\n' :: rest)
      rw [rowChars, List.append_assoc, List.singleton_append, hcell, readFrom?_newline hp,
        String.ofList_toList]
    · obtain ⟨p, hp, hcell⟩ := readFrom?_cell cell row (',' :: (rowChars (next :: cells) ++ rest))
      rw [rowChars, List.append_assoc, List.cons_append, hcell, readFrom?_comma hp,
        String.ofList_toList, ih (List.cons_ne_nil _ _), List.append_assoc, List.singleton_append]
      exact List.cons_ne_nil _ _

/-- The rows that were written are those that are read. -/
theorem rows?_text {rows : List (List String)} (h : ∀ row ∈ rows, row ≠ []) :
    rows? (text rows) = some rows := by
  rw [rows?, text, String.toList_ofList]
  induction rows with
  | nil => rfl
  | cons row rows ih =>
    obtain ⟨hrow, hrows⟩ := List.forall_mem_cons.1 h
    rw [List.flatMap_cons, readFrom?_row hrow, ih hrows, List.nil_append, Option.map_some]

/-- The cells of an event: its texts as they are, its time in decimal, and a text that is read as
its payload. -/
def EventRow (e : Event) (row : List String) : Prop :=
  ∃ payload, row = [e.id, e.kind, toString e.timestamp.toInt, payload] ∧
    ∀ room, Value.ofText? room payload = if e.payload.depth ≤ room then some e.payload else none

/-- The cells of a session.  The last is empty without metadata, and else a text that is read as
the object of the metadata. -/
def SessionRow (s : Session) (row : List String) : Prop :=
  ∃ metadata, row = [s.id, toString s.amountCents.toNat, s.currency, s.status.name,
      toString s.createdAt.toInt, metadata] ∧
    match s.metadata with
    | none => metadata = ""
    | some m => ∀ room, Value.ofText? room metadata =
        if (Value.object m).depth ≤ room then some (.object m) else none

theorem eventRow_of_canonical {e : Event} (h : e.payload.Canonical) : EventRow e (eventRow e) := by
  refine ⟨e.payload.compact, ?_, Value.ofText?_compact h⟩
  rw [eventRow, Numeral.intText_eq_toString]

theorem sessionRow_of_canonical {s : Session}
    (h : ∀ m ∈ s.metadata, (Value.object m).Canonical) : SessionRow s (sessionRow s) := by
  rw [SessionRow, sessionRow, Numeral.text_eq_toString, Numeral.intText_eq_toString]
  refine ⟨_, rfl, ?_⟩
  rcases hm : s.metadata with _ | m
  · rfl
  · exact Value.ofText?_compact (h m hm)

theorem eq_of_ofText? {v w : Value} {cell : String}
    (hv : ∀ room, Value.ofText? room cell = if v.depth ≤ room then some v else none)
    (hw : ∀ room, Value.ofText? room cell = if w.depth ≤ room then some w else none) : v = w := by
  have h := (hv (max v.depth w.depth)).symm.trans (hw _)
  rwa [if_pos (le_max_left _ _), if_pos (le_max_right _ _), Option.some.injEq] at h

theorem toString_int64_injective {m n : Int64} (h : toString m.toInt = toString n.toInt) :
    m = n := by
  rw [← Numeral.intText_eq_toString, ← Numeral.intText_eq_toString] at h
  exact Int64.toInt_inj.1 (Numeral.intText_injective h)

theorem toString_uint64_injective {m n : UInt64} (h : toString m.toNat = toString n.toNat) :
    m = n := by
  rw [← Numeral.text_eq_toString, ← Numeral.text_eq_toString] at h
  exact UInt64.toNat_inj.1 (Numeral.text_injective h)

theorem name_injective {s t : Status} (h : s.name = t.name) : s = t := by
  cases s <;> cases t <;> first | rfl | exact absurd h (by decide)

/-- A row is that of one event only. -/
theorem eventRow_leftUnique : Relator.LeftUnique EventRow := by
  rintro ⟨id, kind, payload, time⟩ ⟨id', kind', payload', time'⟩ row ⟨cell, hrow, hcell⟩
    ⟨cell', hrow', hcell'⟩
  obtain ⟨rfl, rfl, htime, rfl⟩ : id = id' ∧ kind = kind' ∧
      toString time.toInt = toString time'.toInt ∧ cell = cell' := by
    simpa using hrow.symm.trans hrow'
  obtain rfl := toString_int64_injective htime
  obtain rfl : payload = payload' := eq_of_ofText? hcell hcell'
  rfl

theorem ofText?_empty (room : ℕ) : Value.ofText? room "" = none := rfl

/-- A row is that of one session only. -/
theorem sessionRow_leftUnique : Relator.LeftUnique SessionRow := by
  rintro ⟨id, amount, currency, status, time, metadata⟩
    ⟨id', amount', currency', status', time', metadata'⟩ row ⟨cell, hrow, hcell⟩
    ⟨cell', hrow', hcell'⟩
  obtain ⟨rfl, hamount, rfl, hstatus, htime, rfl⟩ : id = id' ∧
      toString amount.toNat = toString amount'.toNat ∧ currency = currency' ∧
      status.name = status'.name ∧ toString time.toInt = toString time'.toInt ∧ cell = cell' := by
    simpa using hrow.symm.trans hrow'
  obtain rfl := toString_uint64_injective hamount
  obtain rfl := name_injective hstatus
  obtain rfl := toString_int64_injective htime
  have hmetadata : metadata = metadata' := by
    rcases metadata with _ | m <;> rcases metadata' with _ | m'
    · rfl
    · subst hcell
      exact absurd (hcell' (Value.object m').depth) (by simp [ofText?_empty])
    · subst hcell'
      exact absurd (hcell (Value.object m).depth) (by simp [ofText?_empty])
    · rw [Value.object.inj (eq_of_ofText? hcell hcell')]
  rw [hmetadata]

theorem rows?_events (es : List Event) :
    rows? (events es) = some (["id", "type", "timestamp", "payload"] :: es.map eventRow) := by
  refine rows?_text ?_
  rw [List.forall_mem_cons, List.forall_mem_map]
  exact ⟨List.cons_ne_nil _ _, fun e _ => List.cons_ne_nil _ _⟩

theorem rows?_sessions (ss : List Session) :
    rows? (sessions ss) =
      some (["id", "amount_cents", "currency", "status", "created_at", "metadata"] ::
        ss.map sessionRow) := by
  refine rows?_text ?_
  rw [List.forall_mem_cons, List.forall_mem_map]
  exact ⟨List.cons_ne_nil _ _, fun s _ => List.cons_ne_nil _ _⟩

theorem forall₂_eventRow {es : List Event} (h : ∀ e ∈ es, e.payload.Canonical) :
    List.Forall₂ EventRow es (es.map eventRow) := by
  rw [List.forall₂_map_right_iff, List.forall₂_same]
  exact fun e he => eventRow_of_canonical (h e he)

theorem forall₂_sessionRow {ss : List Session}
    (h : ∀ s ∈ ss, ∀ m ∈ s.metadata, (Value.object m).Canonical) :
    List.Forall₂ SessionRow ss (ss.map sessionRow) := by
  rw [List.forall₂_map_right_iff, List.forall₂_same]
  exact fun s hs => sessionRow_of_canonical (h s hs)

theorem events_injective {es es' : List Event} (hes : ∀ e ∈ es, e.payload.Canonical)
    (hes' : ∀ e ∈ es', e.payload.Canonical) (h : events es = events es') : es = es' := by
  have hrows : es.map eventRow = es'.map eventRow := by
    simpa [rows?_events] using congrArg rows? h
  exact List.left_unique_forall₂' eventRow_leftUnique (forall₂_eventRow hes)
    (hrows ▸ forall₂_eventRow hes')

theorem sessions_injective {ss ss' : List Session}
    (hss : ∀ s ∈ ss, ∀ m ∈ s.metadata, (Value.object m).Canonical)
    (hss' : ∀ s ∈ ss', ∀ m ∈ s.metadata, (Value.object m).Canonical)
    (h : sessions ss = sessions ss') : ss = ss' := by
  have hrows : ss.map sessionRow = ss'.map sessionRow := by
    simpa [rows?_sessions] using congrArg rows? h
  exact List.left_unique_forall₂' sessionRow_leftUnique (forall₂_sessionRow hss)
    (hrows ▸ forall₂_sessionRow hss')

theorem events_ne_sessions (es : List Event) (ss : List Session) : events es ≠ sessions ss := by
  intro h
  have hrows := congrArg rows? h
  simp [rows?_events, rows?_sessions] at hrows

/-- A sheet has a row for every record, in order, which tells all of the record, whatever is in its
texts.  So no sheet is that of two lists. -/
theorem sheets_lose_nothing :
    (∀ es : List Event, (∀ e ∈ es, e.payload.Canonical) →
      ∃ rows, rows? (events es) = some (["id", "type", "timestamp", "payload"] :: rows) ∧
        List.Forall₂ EventRow es rows) ∧
    (∀ ss : List Session, (∀ s ∈ ss, ∀ m ∈ s.metadata, (Value.object m).Canonical) →
      ∃ rows, rows? (sessions ss) =
          some (["id", "amount_cents", "currency", "status", "created_at", "metadata"] :: rows) ∧
        List.Forall₂ SessionRow ss rows) ∧
    (∀ es es' : List Event, (∀ e ∈ es, e.payload.Canonical) → (∀ e ∈ es', e.payload.Canonical) →
      events es = events es' → es = es') ∧
    (∀ ss ss' : List Session, (∀ s ∈ ss, ∀ m ∈ s.metadata, (Value.object m).Canonical) →
      (∀ s ∈ ss', ∀ m ∈ s.metadata, (Value.object m).Canonical) →
      sessions ss = sessions ss' → ss = ss') ∧
    ∀ (es : List Event) (ss : List Session), events es ≠ sessions ss := by
  refine ⟨fun es h => ⟨_, rows?_events es, forall₂_eventRow h⟩,
    fun ss h => ⟨_, rows?_sessions ss, forall₂_sessionRow h⟩, ?_, ?_, events_ne_sessions⟩
  · exact fun es es' hes hes' h => events_injective hes hes' h
  · exact fun ss ss' hss hss' h => sessions_injective hss hss' h

/-- A kind that looks like the rest of its row and a row more, and a currency with a quote. -/
theorem sheets_lose_nothing_forged_row :
    let e : Event := ⟨"ev", "log,0,null\nev\",mint", .object [("q", .string "\",\n")], -1⟩
    let s : Session := ⟨"p\r", 5, "\"eur\"", .failed, 7, some [("n", .int (-2))]⟩
    (∃ row, rows? (events [e]) = some [["id", "type", "timestamp", "payload"], row] ∧
      EventRow e row) ∧
    (∃ row, rows? (sessions [s]) =
        some [["id", "amount_cents", "currency", "status", "created_at", "metadata"], row] ∧
      SessionRow s row) ∧
    events [e] ≠ events [e, e] ∧ sessions [s] ≠ sessions [{ s with metadata := none }] := by
  intro e s
  have he : ∀ x ∈ [e], x.payload.Canonical := List.forall_mem_singleton.2 ⟨rfl, trivial, trivial⟩
  have hs : ∀ x ∈ [s], ∀ m ∈ x.metadata, (Value.object m).Canonical := by
    rintro x hx m hm
    obtain rfl := List.mem_singleton.1 hx
    obtain rfl := Option.some.inj hm
    exact ⟨rfl, ⟨by decide, by decide⟩, trivial⟩
  have hnone : ∀ x ∈ [{ s with metadata := none }], ∀ m ∈ x.metadata,
      (Value.object m).Canonical := List.forall_mem_singleton.2 nofun
  obtain ⟨hevents, hsessions, hinjective, hinjective', -⟩ := sheets_lose_nothing
  obtain ⟨rows, hrows, hall⟩ := hevents [e] he
  obtain ⟨rows', hrows', hall'⟩ := hsessions [s] hs
  obtain ⟨row, rfl, hrow⟩ : ∃ row, rows = [row] ∧ EventRow e row := by
    cases hall with | cons h hnil => cases hnil; exact ⟨_, rfl, h⟩
  obtain ⟨row', rfl, hrow'⟩ : ∃ row, rows' = [row] ∧ SessionRow s row := by
    cases hall' with | cons h hnil => cases hnil; exact ⟨_, rfl, h⟩
  refine ⟨⟨row, hrows, hrow⟩, ⟨row', hrows', hrow'⟩, fun h => ?_, fun h => ?_⟩
  · exact absurd (hinjective _ _ he (List.forall_mem_cons.2 ⟨he e (by simp), he⟩) h) (by simp)
  · exact absurd (hinjective' _ _ hs hnone h) (by simp [s])

end Sheet

end PageScript
