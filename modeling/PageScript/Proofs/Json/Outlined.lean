import PageScript.Json.Outline
import PageScript.Proofs.Json.Quoted
import PageScript.Proofs.Json.WholeNumber

/-!
# Outlines of written values

`Outline.tokens` is the order in which the parts of an outline are scanned; reading them gives
the outline back (`Outline.ofTokens?_tokens`).

`Value.outline` is the outline of a value as it is written.  It denotes the value again whenever
its numbers are kept exactly and it nests no deeper than there is room
(`Value.value?_outline`).
-/

namespace PageScript.Json

namespace Outline

mutual

def tokens : Outline → List Token
  | .null => [.null]
  | .bool b => [.bool b]
  | .number n => [.number n]
  | .string pieces => [.string pieces]
  | .array [] => [.openArray, .closeArray]
  | .array (o :: rest) => .openArray :: (o.tokens ++ (itemsTokens rest ++ [.closeArray]))
  | .object [] => [.openObject, .closeObject]
  | .object ((key, o) :: rest) =>
    .openObject :: .string key :: .colon :: (o.tokens ++ (membersTokens rest ++ [.closeObject]))

/-- The items after the first, each with the comma before it. -/
def itemsTokens : List Outline → List Token
  | [] => []
  | o :: rest => .comma :: (o.tokens ++ itemsTokens rest)

def membersTokens : List (List Text.Piece × Outline) → List Token
  | [] => []
  | (key, o) :: rest => .comma :: .string key :: .colon :: (o.tokens ++ membersTokens rest)

end

/-- No outline begins with the end of an array. -/
theorem tokens_ne_closeArray (o : Outline) (ts us : List Token) :
    o.tokens ++ ts ≠ .closeArray :: us := by
  rcases o with _ | _ | _ | _ | (_ | _) | (_ | _) <;> simp [tokens]

theorem expect_openArray {ts : List Token} (h : ∀ us, ts ≠ .closeArray :: us)
    (stack : List Frame) : expect stack (.openArray :: ts) = expect (.array [] :: stack) ts := by
  rw [expect]
  exact fun us hus => h us hus

mutual

theorem expect_tokens (o : Outline) (stack : List Frame) (ts : List Token) :
    expect stack (o.tokens ++ ts) = accept o stack ts := by
  match o with
  | .null => simp [tokens, expect]
  | .bool b => simp [tokens, expect]
  | .number n => simp [tokens, expect]
  | .string pieces => simp [tokens, expect]
  | .array [] => simp [tokens, expect]
  | .array (o :: rest) =>
    simp only [tokens, List.cons_append, List.append_assoc, List.nil_append]
    rw [expect_openArray (tokens_ne_closeArray o _), expect_tokens o, accept_itemsTokens rest]
    simp
  | .object [] => simp [tokens, expect]
  | .object ((key, o) :: rest) =>
    simp only [tokens, List.cons_append, List.append_assoc, List.nil_append, expect]
    rw [expect_tokens o, accept_membersTokens rest]
    simp

theorem accept_itemsTokens (rest : List Outline) (o : Outline) (before : List Outline)
    (stack : List Frame) (ts : List Token) :
    accept o (.array before :: stack) (itemsTokens rest ++ .closeArray :: ts) =
      accept (.array (before.reverse ++ o :: rest)) stack ts := by
  match rest with
  | [] => simp [itemsTokens, accept]
  | next :: rest =>
    simp only [itemsTokens, List.cons_append, List.append_assoc, accept]
    rw [expect_tokens next, accept_itemsTokens rest]
    simp

theorem accept_membersTokens (rest : List (List Text.Piece × Outline)) (o : Outline)
    (before : List (List Text.Piece × Outline)) (key : List Text.Piece) (stack : List Frame)
    (ts : List Token) :
    accept o (.object before key :: stack) (membersTokens rest ++ .closeObject :: ts) =
      accept (.object (before.reverse ++ (key, o) :: rest)) stack ts := by
  match rest with
  | [] => simp [membersTokens, accept]
  | (next, p) :: rest =>
    simp only [membersTokens, List.cons_append, List.append_assoc, accept]
    rw [expect_tokens p, accept_membersTokens rest]
    simp

end

theorem ofTokens?_tokens (o : Outline) : ofTokens? o.tokens = some o := by
  have h := expect_tokens o [] []
  rw [List.append_nil] at h
  rw [ofTokens?, h, accept]

end Outline

/-- The spelling of a written number. -/
def Number.spelling : Number → Spelling
  | .int n => .ofInt n
  | .double x => (Spelling.ofChars? x.chars).getD (.ofInt 0)

namespace Value

mutual

def outline : Value → Outline
  | .null => .null
  | .bool b => .bool b
  | .number n => .number n.spelling
  | .string s => .string (Text.pieces s)
  | .array items => .array (outlines items)
  | .object members => .object (memberOutlines members)

def outlines : List Value → List Outline
  | [] => []
  | v :: rest => v.outline :: outlines rest

def memberOutlines : List (String × Value) → List (List Text.Piece × Outline)
  | [] => []
  | (k, v) :: rest => (Text.pieces k, v.outline) :: memberOutlines rest

end

mutual

/-- Whether all numbers in a value are whole and kept exactly. -/
def Exact : Value → Prop
  | .number n => n.Exact
  | .array items => ItemsExact items
  | .object members => MembersExact members
  | _ => True

def ItemsExact : List Value → Prop
  | [] => True
  | v :: rest => v.Exact ∧ ItemsExact rest

def MembersExact : List (String × Value) → Prop
  | [] => True
  | (_, v) :: rest => v.Exact ∧ MembersExact rest

end

theorem itemsExact_iff {items : List Value} : ItemsExact items ↔ ∀ v ∈ items, v.Exact := by
  induction items with
  | nil => simp [ItemsExact]
  | cons v rest ih => simp [ItemsExact, ih]

theorem membersExact_iff {members : List (String × Value)} :
    MembersExact members ↔ ∀ m ∈ members, m.2.Exact := by
  induction members with
  | nil => simp [MembersExact]
  | cons m rest ih => simp [MembersExact, ih]

theorem itemsDepth_le_iff {items : List Value} {n : ℕ} :
    itemsDepth items ≤ n ↔ ∀ v ∈ items, v.depth ≤ n := by
  induction items with
  | nil => simp [itemsDepth]
  | cons v rest ih => simp [itemsDepth, ih]

theorem membersDepth_le_iff {members : List (String × Value)} {n : ℕ} :
    membersDepth members ≤ n ↔ ∀ m ∈ members, m.2.depth ≤ n := by
  induction members with
  | nil => simp [membersDepth]
  | cons m rest ih => simp [membersDepth, ih]

theorem outlines_eq_map (items : List Value) : outlines items = items.map outline := by
  induction items with
  | nil => rfl
  | cons v rest ih => simp [outlines, ih]

theorem number?_spelling {n : Number} (h : n.Exact) : n.spelling.number? = some n := by
  cases n with
  | int n => exact Spelling.number?_ofInt h
  | double x =>
    obtain rfl : x = Number.negativeZero := h
    rw [Number.spelling, Spelling.ofChars?_negativeZero, Option.getD_some,
      Spelling.number?_negativeZero]

mutual

/-- A written value denotes itself again, given room to nest. -/
theorem value?_outline (v : Value) {room : ℕ} (he : v.Exact) (hd : v.depth ≤ room) :
    v.outline.value? room = some v := by
  match v, room with
  | .null, _ => simp [outline, Outline.value?]
  | .bool b, _ => simp [outline, Outline.value?]
  | .number n, _ =>
    simp only [outline, Outline.value?, number?_spelling (n := n) he, Option.map_some]
  | .string s, _ => simp [outline, Outline.value?, Text.decode?_pieces]
  | .array items, 0 => simp [depth] at hd
  | .array items, room + 1 =>
    rw [depth, Nat.succ_le_succ_iff] at hd
    simp only [outline, Outline.value?, values?_outlines items he hd, Option.map_some]
  | .object members, 0 => simp [depth] at hd
  | .object members, room + 1 =>
    rw [depth, Nat.succ_le_succ_iff] at hd
    simp only [outline, Outline.value?, memberValues?_memberOutlines members he hd,
      Option.map_some]

theorem values?_outlines (items : List Value) {room : ℕ} (he : ItemsExact items)
    (hd : itemsDepth items ≤ room) : Outline.values? room (outlines items) = some items := by
  match items with
  | [] => simp [outlines, Outline.values?]
  | v :: rest =>
    have hd := max_le_iff.1 hd
    have hv := value?_outline v he.1 hd.1
    have hrest := values?_outlines rest he.2 hd.2
    simp [outlines, Outline.values?, hv, hrest]

theorem memberValues?_memberOutlines (members : List (String × Value)) {room : ℕ}
    (he : MembersExact members) (hd : membersDepth members ≤ room) :
    Outline.memberValues? room (memberOutlines members) = some members := by
  match members with
  | [] => simp [memberOutlines, Outline.memberValues?]
  | (k, v) :: rest =>
    have hd := max_le_iff.1 hd
    have hv := value?_outline v he.1 hd.1
    have hrest := memberValues?_memberOutlines rest he.2 hd.2
    simp [memberOutlines, Outline.memberValues?, Text.decode?_pieces, hv, hrest]

end

end Value

end PageScript.Json
