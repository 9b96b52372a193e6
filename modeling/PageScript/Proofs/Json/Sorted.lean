import Mathlib.Data.String.Basic
import PageScript.Proofs.Json.Outlined

/-!
# The free-form reading

`Members.ofList` puts members in the order of their keys and leaves members that are in that
order alone (`Members.ofList_of_ascending`).  So the free-form reading of a value that has been
read in that way is the value itself (`Value.sorted_sorted`); it has no more depth than what it is
the reading of, and no other numbers.

A value is `Plain` when it is its own free-form reading, its numbers are kept exactly and it nests
no deeper than some bound: such a value survives being written and read.
-/

namespace PageScript.Json

namespace Members

/-- Keys in strictly ascending order. -/
def Ascending (ms : Members) : Prop :=
  ms.Pairwise fun m n => m.1 < n.1

theorem mem_insert {key : String} {v : Value} {ms : Members} {m : String × Value}
    (h : m ∈ insert key v ms) : m = (key, v) ∨ m ∈ ms := by
  induction ms with
  | nil => simpa [insert] using h
  | cons n rest ih =>
    rw [insert] at h
    split_ifs at h
    · exact List.mem_cons.1 h
    · rcases List.mem_cons.1 h with h | h
      · exact .inl h
      · exact .inr (List.mem_cons_of_mem _ h)
    · rcases List.mem_cons.1 h with rfl | h
      · exact .inr List.mem_cons_self
      · exact (ih h).imp_right (List.mem_cons_of_mem _)

theorem ascending_insert (key : String) (v : Value) {ms : Members} (h : Ascending ms) :
    Ascending (insert key v ms) := by
  induction ms with
  | nil => simp [insert, Ascending]
  | cons n rest ih =>
    obtain ⟨hn, hrest⟩ := List.pairwise_cons.1 h
    rw [insert]
    split_ifs with hlt heq
    · refine List.pairwise_cons.2 ⟨fun m hm => ?_, h⟩
      rcases List.mem_cons.1 hm with rfl | hm
      · exact hlt
      · exact lt_trans hlt (hn m hm)
    · subst heq
      exact List.pairwise_cons.2 ⟨hn, hrest⟩
    · refine List.pairwise_cons.2 ⟨fun m hm => ?_, ih hrest⟩
      rcases mem_insert hm with rfl | hm
      · exact lt_of_le_of_ne (not_lt.1 hlt) (Ne.symm heq)
      · exact hn m hm

theorem mem_foldl_insert {ms acc : Members} {m : String × Value}
    (h : m ∈ ms.foldl (fun sorted m => insert m.1 m.2 sorted) acc) : m ∈ acc ∨ m ∈ ms := by
  induction ms generalizing acc with
  | nil => exact .inl h
  | cons n rest ih =>
    rcases ih h with h | h
    · rcases mem_insert h with rfl | h
      · exact .inr List.mem_cons_self
      · exact .inl h
    · exact .inr (List.mem_cons_of_mem _ h)

theorem mem_of_mem_ofList {ms : Members} {m : String × Value} (h : m ∈ ofList ms) : m ∈ ms :=
  (mem_foldl_insert h).resolve_left List.not_mem_nil

theorem ascending_foldl_insert (ms : Members) {acc : Members} (h : Ascending acc) :
    Ascending (ms.foldl (fun sorted m => insert m.1 m.2 sorted) acc) := by
  induction ms generalizing acc with
  | nil => exact h
  | cons m rest ih => exact ih (ascending_insert m.1 m.2 h)

theorem ascending_ofList (ms : Members) : Ascending (ofList ms) :=
  ascending_foldl_insert ms List.Pairwise.nil

theorem insert_of_lt {key : String} (v : Value) {ms : Members} (h : ∀ m ∈ ms, m.1 < key) :
    insert key v ms = ms ++ [(key, v)] := by
  induction ms with
  | nil => rfl
  | cons n rest ih =>
    have hn := h n List.mem_cons_self
    rw [insert, if_neg hn.not_gt, if_neg hn.ne', ih fun m hm => h m (List.mem_cons_of_mem _ hm)]
    rfl

theorem foldl_insert_of_ascending {ms acc : Members} (h : Ascending (acc ++ ms)) :
    ms.foldl (fun sorted m => insert m.1 m.2 sorted) acc = acc ++ ms := by
  induction ms generalizing acc with
  | nil => simp
  | cons m rest ih =>
    have hm : ∀ n ∈ acc, n.1 < m.1 := fun n hn =>
      (List.pairwise_append.1 h).2.2 n hn m List.mem_cons_self
    rw [List.append_cons] at h
    rw [List.foldl_cons, insert_of_lt m.2 hm, ih h, ← List.append_cons]

theorem ofList_of_ascending {ms : Members} (h : Ascending ms) : ofList ms = ms := by
  have h' : Ascending ([] ++ ms) := h
  exact foldl_insert_of_ascending h'

end Members

namespace Value

mutual

private theorem ind_value {P : Value → Prop} (null : P .null) (bool : ∀ b, P (.bool b))
    (number : ∀ n, P (.number n)) (string : ∀ s, P (.string s))
    (array : ∀ items, (∀ v ∈ items, P v) → P (.array items))
    (object : ∀ members, (∀ m ∈ members, P m.2) → P (.object members)) (v : Value) : P v := by
  match v with
  | .null => exact null
  | .bool b => exact bool b
  | .number n => exact number n
  | .string s => exact string s
  | .array items => exact array items (ind_items null bool number string array object items)
  | .object members =>
    exact object members (ind_members null bool number string array object members)

private theorem ind_items {P : Value → Prop} (null : P .null) (bool : ∀ b, P (.bool b))
    (number : ∀ n, P (.number n)) (string : ∀ s, P (.string s))
    (array : ∀ items, (∀ v ∈ items, P v) → P (.array items))
    (object : ∀ members, (∀ m ∈ members, P m.2) → P (.object members)) (items : List Value) :
    ∀ v ∈ items, P v := by
  match items with
  | [] => exact fun v hv => absurd hv List.not_mem_nil
  | v :: rest =>
    exact List.forall_mem_cons.2 ⟨ind_value null bool number string array object v,
      ind_items null bool number string array object rest⟩

private theorem ind_members {P : Value → Prop} (null : P .null) (bool : ∀ b, P (.bool b))
    (number : ∀ n, P (.number n)) (string : ∀ s, P (.string s))
    (array : ∀ items, (∀ v ∈ items, P v) → P (.array items))
    (object : ∀ members, (∀ m ∈ members, P m.2) → P (.object members))
    (members : List (String × Value)) : ∀ m ∈ members, P m.2 := by
  match members with
  | [] => exact fun m hm => absurd hm List.not_mem_nil
  | (_, v) :: rest =>
    exact List.forall_mem_cons.2 ⟨ind_value null bool number string array object v,
      ind_members null bool number string array object rest⟩

end

/-- What holds of a container when it holds of all it contains holds of every value. -/
@[elab_as_elim]
theorem ind {P : Value → Prop} (null : P .null) (bool : ∀ b, P (.bool b))
    (number : ∀ n, P (.number n)) (string : ∀ s, P (.string s))
    (array : ∀ items, (∀ v ∈ items, P v) → P (.array items))
    (object : ∀ members, (∀ m ∈ members, P m.2) → P (.object members)) (v : Value) : P v :=
  ind_value null bool number string array object v

mutual

/-- Whether two values are the same; members of an object have to stand in the same order. -/
def same : Value → Value → Bool
  | .null, .null => true
  | .bool b, .bool c => b = c
  | .number m, .number n => m = n
  | .string s, .string t => s = t
  | .array items, .array others => sameItems items others
  | .object members, .object others => sameMembers members others
  | _, _ => false

def sameItems : List Value → List Value → Bool
  | [], [] => true
  | v :: rest, w :: others => v.same w && sameItems rest others
  | _, _ => false

def sameMembers : List (String × Value) → List (String × Value) → Bool
  | [], [] => true
  | (k, v) :: rest, (l, w) :: others => k = l && v.same w && sameMembers rest others
  | _, _ => false

end

theorem sameItems_iff {items : List Value} (h : ∀ v ∈ items, ∀ w, v.same w = true ↔ v = w)
    (others : List Value) : sameItems items others = true ↔ items = others := by
  induction items generalizing others with
  | nil => cases others <;> simp [sameItems]
  | cons v rest ih =>
    obtain ⟨hv, hrest⟩ := List.forall_mem_cons.1 h
    cases others with
    | nil => simp [sameItems]
    | cons w others => simp [sameItems, hv w, ih hrest others]

theorem sameMembers_iff {members : List (String × Value)}
    (h : ∀ m ∈ members, ∀ w, m.2.same w = true ↔ m.2 = w) (others : List (String × Value)) :
    sameMembers members others = true ↔ members = others := by
  induction members generalizing others with
  | nil => cases others <;> simp [sameMembers]
  | cons m rest ih =>
    obtain ⟨hm, hrest⟩ := List.forall_mem_cons.1 h
    cases others with
    | nil => simp [sameMembers]
    | cons n others => simp [sameMembers, hm n.2, ih hrest others, Prod.ext_iff]

theorem same_iff (v w : Value) : v.same w = true ↔ v = w := by
  induction v using ind generalizing w with
  | null | bool | number | string => cases w <;> simp [same]
  | array items ih => cases w <;> simp [same, sameItems_iff ih]
  | object members ih => cases w <;> simp [same, sameMembers_iff ih]

instance : DecidableEq Value := fun v w => decidable_of_iff _ (same_iff v w)

theorem sortedItems_eq_map (items : List Value) : sortedItems items = items.map sorted := by
  induction items with
  | nil => rfl
  | cons v rest ih => simp [sortedItems, ih]

theorem sortedMembers_eq_map (members : List (String × Value)) :
    sortedMembers members = members.map fun m => (m.1, m.2.sorted) := by
  induction members with
  | nil => rfl
  | cons m rest ih => simp [sortedMembers, ih]

/-- A member of the free-form reading is the reading of a member. -/
theorem exists_of_mem_ofList_sortedMembers {members : List (String × Value)} {m : String × Value}
    (h : m ∈ Members.ofList (sortedMembers members)) : ∃ n ∈ members, m = (n.1, n.2.sorted) := by
  have h := Members.mem_of_mem_ofList h
  rw [sortedMembers_eq_map] at h
  obtain ⟨n, hn, rfl⟩ := List.mem_map.1 h
  exact ⟨n, hn, rfl⟩

/-- Members that are in order, each with a value that is its own free-form reading, are left
alone. -/
theorem ofList_sortedMembers_of {members : List (String × Value)}
    (ha : Members.Ascending members) (hs : ∀ m ∈ members, m.2.sorted = m.2) :
    Members.ofList (sortedMembers members) = members := by
  have hm : sortedMembers members = members := by
    rw [sortedMembers_eq_map]
    exact (List.map_congr_left fun m hm => by rw [hs m hm, id]).trans (List.map_id members)
  rw [hm, Members.ofList_of_ascending ha]

theorem sorted_sorted (v : Value) : v.sorted.sorted = v.sorted := by
  induction v using ind with
  | null | bool | number | string => simp [sorted]
  | array items ih =>
    simp only [sorted, sortedItems_eq_map, List.map_map, Value.array.injEq]
    exact List.map_congr_left ih
  | object members ih =>
    rw [sorted, sorted, ofList_sortedMembers_of (Members.ascending_ofList _)]
    intro m hm
    obtain ⟨n, hn, rfl⟩ := exists_of_mem_ofList_sortedMembers hm
    exact ih n hn

theorem depth_sorted_le (v : Value) : v.sorted.depth ≤ v.depth := by
  induction v using ind with
  | null | bool | number | string => simp [sorted]
  | array items ih =>
    rw [sorted, depth, depth, Nat.succ_le_succ_iff, itemsDepth_le_iff, sortedItems_eq_map]
    intro w hw
    obtain ⟨v, hv, rfl⟩ := List.mem_map.1 hw
    exact (ih v hv).trans (itemsDepth_le_iff.1 le_rfl v hv)
  | object members ih =>
    rw [sorted, depth, depth, Nat.succ_le_succ_iff, membersDepth_le_iff]
    intro m hm
    obtain ⟨n, hn, rfl⟩ := exists_of_mem_ofList_sortedMembers hm
    exact (ih n hn).trans (membersDepth_le_iff.1 le_rfl n hn)

theorem exact_sorted {v : Value} (h : v.Exact) : v.sorted.Exact := by
  induction v using ind with
  | null | bool | number | string => simpa [sorted] using h
  | array items ih =>
    rw [sorted, Exact, itemsExact_iff, sortedItems_eq_map]
    intro w hw
    obtain ⟨v, hv, rfl⟩ := List.mem_map.1 hw
    exact ih v hv (itemsExact_iff.1 h v hv)
  | object members ih =>
    rw [sorted, Exact, membersExact_iff]
    intro m hm
    obtain ⟨n, hn, rfl⟩ := exists_of_mem_ofList_sortedMembers hm
    exact ih n hn (membersExact_iff.1 h n hn)

/-- A free-form value that survives being written and read inside some containers. -/
structure Plain (room : ℕ) (v : Value) : Prop where
  sorted_eq : v.sorted = v
  exact : v.Exact
  depth_le : v.depth ≤ room

/-- A free-form value as any is that is read with numbers that are kept exactly. -/
structure Canonical (v : Value) : Prop where
  sorted_eq : v.sorted = v
  exact : v.Exact

theorem Canonical.plain {room : ℕ} {v : Value} (h : v.Canonical) (hd : v.depth ≤ room) :
    v.Plain room :=
  ⟨h.sorted_eq, h.exact, hd⟩

theorem Plain.canonical {room : ℕ} {v : Value} (h : v.Plain room) : v.Canonical :=
  ⟨h.sorted_eq, h.exact⟩

theorem plain_sorted {room : ℕ} {v : Value} (he : v.Exact) (hd : v.depth ≤ room) :
    v.sorted.Plain room :=
  ⟨sorted_sorted v, exact_sorted he, (depth_sorted_le v).trans hd⟩

theorem Plain.mono {room more : ℕ} {v : Value} (h : v.Plain room) (hle : room ≤ more) :
    v.Plain more :=
  ⟨h.sorted_eq, h.exact, h.depth_le.trans hle⟩

theorem plain_null (room : ℕ) : Plain room .null := by
  exact ⟨rfl, by simp [Exact], by simp [depth]⟩

theorem plain_string (room : ℕ) (s : String) : Plain room (.string s) := by
  exact ⟨by simp [sorted], by simp [Exact], by simp [depth]⟩

theorem plain_array {room : ℕ} {items : List Value} (h : ∀ v ∈ items, v.Plain room) :
    (array items).Plain (room + 1) where
  sorted_eq := by
    rw [sorted, sortedItems_eq_map, List.map_congr_left fun v hv => (h v hv).sorted_eq,
      List.map_id']
  exact := itemsExact_iff.2 fun v hv => (h v hv).exact
  depth_le := Nat.succ_le_succ (itemsDepth_le_iff.2 fun v hv => (h v hv).depth_le)

theorem plain_object {room : ℕ} {members : Members} (ha : Members.Ascending members)
    (h : ∀ m ∈ members, m.2.Plain room) : (object members).Plain (room + 1) where
  sorted_eq := by
    rw [sorted, ofList_sortedMembers_of ha fun m hm => (h m hm).sorted_eq]
  exact := membersExact_iff.2 fun m hm => (h m hm).exact
  depth_le := Nat.succ_le_succ (membersDepth_le_iff.2 fun m hm => (h m hm).depth_le)

end Value

end PageScript.Json
