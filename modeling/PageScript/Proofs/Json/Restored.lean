import PageScript.Json.Format
import PageScript.Proofs.Json.Scanned
import PageScript.Proofs.Json.Sorted

/-!
# Records that are read back

A record is restored by its format when it is written with numbers that are kept exactly and the
outline of what is written reads as the record (`Format.Restores`).  A list of such records is
read back from its text as it is (`Format.decode?_encode`).

A field is read of a part of the outline (`Outline.exists_of_fields?`).  A value that is read at all
nests no deeper than there was room (`Outline.depth_le_of_value?`), and its numbers are kept exactly
if all those in the outline are (`Outline.exact_of_value?`).
-/

namespace PageScript.Json

theorem mapM_eq_some_of {α β : Type} {f : α → Option β} {g : α → β} {l : List α}
    (h : ∀ a ∈ l, f a = some (g a)) : l.mapM f = some (l.map g) := by
  induction l with
  | nil => rfl
  | cons a rest ih =>
    have ha := h a List.mem_cons_self
    have hrest := ih fun b hb => h b (List.mem_cons_of_mem _ hb)
    simp [List.mapM_cons, ha, hrest]

theorem exists_of_mem_mapM {α β : Type} {f : α → Option β} {l : List α} {bs : List β}
    (h : l.mapM f = some bs) {b : β} (hb : b ∈ bs) : ∃ a ∈ l, f a = some b := by
  induction l generalizing bs with
  | nil =>
    simp only [List.mapM_nil, Option.pure_def, Option.some.injEq] at h
    simp [← h] at hb
  | cons a rest ih =>
    simp only [List.mapM_cons, Option.bind_eq_bind, Option.pure_def, Option.bind_eq_some_iff,
      Option.some.injEq] at h
    obtain ⟨c, hc, cs, hcs, rfl⟩ := h
    rcases List.mem_cons.1 hb with rfl | hb
    · exact ⟨a, List.mem_cons_self, hc⟩
    · obtain ⟨d, hd, hdb⟩ := ih hcs hb
      exact ⟨d, List.mem_cons_of_mem _ hd, hdb⟩

theorem exists_of_mapM {α β : Type} {f : α → Option β} {l : List α} {bs : List β}
    (h : l.mapM f = some bs) {a : α} (ha : a ∈ l) : ∃ b, f a = some b := by
  induction l generalizing bs with
  | nil => cases ha
  | cons c rest ih =>
    simp only [List.mapM_cons, Option.bind_eq_bind, Option.bind_eq_some_iff] at h
    obtain ⟨d, hd, ds, hds, -⟩ := h
    rcases List.mem_cons.1 ha with rfl | ha
    · exact ⟨d, hd⟩
    · exact ih hds ha

/-- Which member is picked depends on the keys alone. -/
theorem pickOne_map {α β : Type} (f : α → β) (ms : List (String × α)) (name : String) :
    pickOne (ms.map fun m => (m.1, f m.2)) name = (pickOne ms name).map (Option.map f) := by
  have hfilter : (ms.map fun m => (m.1, f m.2)).filter (·.1 = name) =
      (ms.filter (·.1 = name)).map fun m => (m.1, f m.2) := by
    rw [List.filter_map]
    rfl
  rw [pickOne, pickOne, hfilter]
  generalize ms.filter (·.1 = name) = l
  rcases l with _ | ⟨m, _ | ⟨n, l⟩⟩ <;> rfl

theorem pick_map {α β : Type} (f : α → β) (names : List String) (ms : List (String × α)) :
    pick names (ms.map fun m => (m.1, f m.2)) =
      (pick names ms).map (List.map (Option.map f)) := by
  unfold pick
  induction names with
  | nil => rfl
  | cons name rest ih =>
    rw [List.mapM_cons, List.mapM_cons, pickOne_map, ih]
    rcases pickOne ms name with _ | a
    · rfl
    · cases rest.mapM (pickOne ms) <;> rfl

theorem mem_of_pickOne {α : Type} {ms : List (String × α)} {name : String} {a : α}
    (h : pickOne ms name = some (some a)) : (name, a) ∈ ms := by
  have hmem : ∀ m ∈ ms.filter (·.1 = name), m.1 = name ∧ m ∈ ms := by
    intro m hm
    simp only [List.mem_filter, decide_eq_true_eq] at hm
    exact ⟨hm.2, hm.1⟩
  unfold pickOne at h
  split at h
  · cases h
  · rename_i k v hl
    obtain ⟨rfl, hm⟩ := hmem (k, v) (by simp [hl])
    cases h
    exact hm
  · cases h

theorem mem_of_mem_pick {α : Type} {names : List String} {ms : List (String × α)}
    {fs : List (Option α)} (h : pick names ms = some fs) {a : α} (ha : some a ∈ fs) :
    ∃ name ∈ names, (name, a) ∈ ms := by
  obtain ⟨name, hname, hn⟩ := exists_of_mem_mapM h ha
  exact ⟨name, hname, mem_of_pickOne hn⟩

theorem mem_of_mem_place {α : Type} {names : List String} {items : List α} {fs : List (Option α)}
    (h : place names items = some fs) {a : α} (ha : some a ∈ fs) : a ∈ items := by
  unfold place at h
  split at h
  · cases h
    simpa using ha
  · cases h

namespace Outline

theorem keys?_memberOutlines (ms : List (String × Value)) :
    keys? (Value.memberOutlines ms) = some (ms.map fun m => (m.1, m.2.outline)) := by
  induction ms with
  | nil => rfl
  | cons m rest ih => simp [Value.memberOutlines, keys?, Text.decode?_pieces, ih]

theorem fieldValues?_map_outline {room : ℕ} {fs : List (Option Value)}
    (h : ∀ v, some v ∈ fs → v.Exact ∧ v.depth ≤ room) :
    fieldValues? room (fs.map (Option.map Value.outline)) = some fs := by
  induction fs with
  | nil => rfl
  | cons f rest ih =>
    have hrest := ih fun v hv => h v (List.mem_cons_of_mem _ hv)
    cases f with
    | none => simp [fieldValues?, hrest]
    | some v =>
      obtain ⟨he, hd⟩ := h v List.mem_cons_self
      simp [fieldValues?, Value.value?_outline v he hd, hrest]

/-- The fields of a written record are the members it was written with. -/
theorem fields?_outline {names : List String} {room : ℕ} {ms : List (String × Value)}
    {fs : List (Option Value)} (he : (Value.object ms).Exact)
    (hd : (Value.object ms).depth ≤ room + 1) (hp : pick names ms = some fs) :
    (Value.object ms).outline.fields? names (room + 1) = some fs := by
  have he : ∀ m ∈ ms, m.2.Exact := Value.membersExact_iff.1 he
  have hd : ∀ m ∈ ms, m.2.depth ≤ room :=
    Value.membersDepth_le_iff.1 (Nat.succ_le_succ_iff.1 (by simpa [Value.depth] using hd))
  have hfs : ∀ v, some v ∈ fs → v.Exact ∧ v.depth ≤ room := by
    intro v hv
    obtain ⟨name, -, hm⟩ := mem_of_mem_pick hp hv
    exact ⟨he _ hm, hd _ hm⟩
  simp [Value.outline, fields?, keys?_memberOutlines, pick_map, hp, fieldValues?_map_outline hfs]

mutual

theorem depth_le_of_value? {room : ℕ} (o : Outline) {v : Value} (h : o.value? room = some v) :
    v.depth ≤ room := by
  match o, room with
  | .null, _ =>
    simp only [value?, Option.some.injEq] at h
    simp [← h, Value.depth]
  | .bool b, _ =>
    simp only [value?, Option.some.injEq] at h
    simp [← h, Value.depth]
  | .number n, _ =>
    simp only [value?, Option.map_eq_some_iff] at h
    obtain ⟨n, -, rfl⟩ := h
    simp [Value.depth]
  | .string pieces, _ =>
    simp only [value?, Option.map_eq_some_iff] at h
    obtain ⟨s, -, rfl⟩ := h
    simp [Value.depth]
  | .array items, 0 => simp [value?] at h
  | .array items, room + 1 =>
    simp only [value?, Option.map_eq_some_iff] at h
    obtain ⟨vs, hvs, rfl⟩ := h
    exact Nat.succ_le_succ (itemsDepth_le_of_values? items hvs)
  | .object members, 0 => simp [value?] at h
  | .object members, room + 1 =>
    simp only [value?, Option.map_eq_some_iff] at h
    obtain ⟨ms, hms, rfl⟩ := h
    exact Nat.succ_le_succ (membersDepth_le_of_memberValues? members hms)

theorem itemsDepth_le_of_values? {room : ℕ} (items : List Outline) {vs : List Value}
    (h : values? room items = some vs) : Value.itemsDepth vs ≤ room := by
  match items with
  | [] =>
    simp only [values?, Option.some.injEq] at h
    simp [← h, Value.itemsDepth]
  | o :: rest =>
    simp only [values?, Option.bind_eq_bind, Option.pure_def, Option.bind_eq_some_iff,
      Option.some.injEq] at h
    obtain ⟨v, hv, ws, hws, rfl⟩ := h
    exact max_le (depth_le_of_value? o hv) (itemsDepth_le_of_values? rest hws)

theorem membersDepth_le_of_memberValues? {room : ℕ} (members : List (List Text.Piece × Outline))
    {ms : List (String × Value)} (h : memberValues? room members = some ms) :
    Value.membersDepth ms ≤ room := by
  match members with
  | [] =>
    simp only [memberValues?, Option.some.injEq] at h
    simp [← h, Value.membersDepth]
  | (key, o) :: rest =>
    simp only [memberValues?, Option.bind_eq_bind, Option.pure_def, Option.bind_eq_some_iff,
      Option.some.injEq] at h
    obtain ⟨k, -, v, hv, ns, hns, rfl⟩ := h
    exact max_le (depth_le_of_value? o hv) (membersDepth_le_of_memberValues? rest hns)

end

mutual

/-- Whether all numbers in an outline, those aside that denote nothing, are whole and kept
exactly. -/
def Exact : Outline → Prop
  | .number n => ∀ m, n.number? = some m → m.Exact
  | .array items => ItemsExact items
  | .object members => MembersExact members
  | _ => True

def ItemsExact : List Outline → Prop
  | [] => True
  | o :: rest => o.Exact ∧ ItemsExact rest

def MembersExact : List (List Text.Piece × Outline) → Prop
  | [] => True
  | (_, o) :: rest => o.Exact ∧ MembersExact rest

end

mutual

theorem exact_of_value? {room : ℕ} (o : Outline) {v : Value} (h : o.value? room = some v)
    (he : o.Exact) : v.Exact := by
  match o, room with
  | .null, _ =>
    simp only [value?, Option.some.injEq] at h
    simp [← h, Value.Exact]
  | .bool b, _ =>
    simp only [value?, Option.some.injEq] at h
    simp [← h, Value.Exact]
  | .number n, _ =>
    simp only [value?, Option.map_eq_some_iff] at h
    obtain ⟨m, hm, rfl⟩ := h
    exact he m hm
  | .string pieces, _ =>
    simp only [value?, Option.map_eq_some_iff] at h
    obtain ⟨s, -, rfl⟩ := h
    simp [Value.Exact]
  | .array items, 0 => simp [value?] at h
  | .array items, room + 1 =>
    simp only [value?, Option.map_eq_some_iff] at h
    obtain ⟨vs, hvs, rfl⟩ := h
    exact itemsExact_of_values? items hvs he
  | .object members, 0 => simp [value?] at h
  | .object members, room + 1 =>
    simp only [value?, Option.map_eq_some_iff] at h
    obtain ⟨ms, hms, rfl⟩ := h
    exact membersExact_of_memberValues? members hms he

theorem itemsExact_of_values? {room : ℕ} (items : List Outline) {vs : List Value}
    (h : values? room items = some vs) (he : ItemsExact items) : Value.ItemsExact vs := by
  match items with
  | [] =>
    simp only [values?, Option.some.injEq] at h
    simp [← h, Value.ItemsExact]
  | o :: rest =>
    simp only [values?, Option.bind_eq_bind, Option.pure_def, Option.bind_eq_some_iff,
      Option.some.injEq] at h
    obtain ⟨v, hv, ws, hws, rfl⟩ := h
    exact ⟨exact_of_value? o hv he.1, itemsExact_of_values? rest hws he.2⟩

theorem membersExact_of_memberValues? {room : ℕ} (members : List (List Text.Piece × Outline))
    {ms : List (String × Value)} (h : memberValues? room members = some ms)
    (he : MembersExact members) : Value.MembersExact ms := by
  match members with
  | [] =>
    simp only [memberValues?, Option.some.injEq] at h
    simp [← h, Value.MembersExact]
  | (key, o) :: rest =>
    simp only [memberValues?, Option.bind_eq_bind, Option.pure_def, Option.bind_eq_some_iff,
      Option.some.injEq] at h
    obtain ⟨k, -, v, hv, ns, hns, rfl⟩ := h
    exact ⟨exact_of_value? o hv he.1, membersExact_of_memberValues? rest hns he.2⟩

end

/-- What stands right inside an outline. -/
def parts : Outline → List Outline
  | .array items => items
  | .object members => members.map Prod.snd
  | _ => []

theorem exact_of_mem_parts {o p : Outline} (hp : p ∈ o.parts) (he : o.Exact) : p.Exact := by
  cases o with
  | array items =>
    induction items with
    | nil => cases hp
    | cons q rest ih =>
      rcases List.mem_cons.1 hp with rfl | hp
      · exact he.1
      · exact ih hp he.2
  | object members =>
    induction members with
    | nil => cases hp
    | cons m rest ih =>
      rcases List.mem_cons.1 hp with rfl | hp
      · exact he.1
      · exact ih hp he.2
  | null | bool | number | string => cases hp

theorem mem_of_keys? {members : List (List Text.Piece × Outline)}
    {keyed : List (String × Outline)} (h : keys? members = some keyed) {m : String × Outline}
    (hm : m ∈ keyed) : m.2 ∈ members.map Prod.snd := by
  induction members generalizing keyed with
  | nil =>
    cases h
    cases hm
  | cons p rest ih =>
    simp only [keys?, Option.bind_eq_bind, Option.pure_def, Option.bind_eq_some_iff,
      Option.some.injEq] at h
    obtain ⟨k, -, ns, hns, rfl⟩ := h
    rcases List.mem_cons.1 hm with rfl | hm
    · exact List.mem_cons_self
    · exact List.mem_cons_of_mem _ (ih hns hm)

theorem exists_of_fieldValues? {room : ℕ} {os : List (Option Outline)}
    {fs : List (Option Value)} (h : fieldValues? room os = some fs) {v : Value}
    (hv : some v ∈ fs) : ∃ p, some p ∈ os ∧ p.value? room = some v := by
  induction os generalizing fs with
  | nil =>
    simp only [fieldValues?, Option.some.injEq] at h
    simp [← h] at hv
  | cons o rest ih =>
    cases o with
    | none =>
      simp only [fieldValues?, Option.bind_eq_bind, Option.pure_def, Option.bind_eq_some_iff,
        Option.some.injEq] at h
      obtain ⟨gs, hgs, rfl⟩ := h
      obtain ⟨p, hp, hpv⟩ := ih hgs (by simpa using hv)
      exact ⟨p, List.mem_cons_of_mem _ hp, hpv⟩
    | some o =>
      simp only [fieldValues?, Option.bind_eq_bind, Option.pure_def, Option.bind_eq_some_iff,
        Option.some.injEq] at h
      obtain ⟨w, hw, gs, hgs, rfl⟩ := h
      rcases List.mem_cons.1 hv with hv | hv
      · cases hv
        exact ⟨o, List.mem_cons_self, hw⟩
      · obtain ⟨p, hp, hpv⟩ := ih hgs hv
        exact ⟨p, List.mem_cons_of_mem _ hp, hpv⟩

/-- A field is read of a part of the outline. -/
theorem exists_of_fields? {names : List String} {room : ℕ} {o : Outline}
    {fs : List (Option Value)} (h : o.fields? names (room + 1) = some fs) {v : Value}
    (hv : some v ∈ fs) : ∃ p ∈ o.parts, p.value? room = some v := by
  cases o with
  | object members =>
    simp only [fields?, Option.bind_eq_bind, Option.bind_eq_some_iff] at h
    obtain ⟨keyed, hkeyed, os, hos, hfs⟩ := h
    obtain ⟨p, hp, hpv⟩ := exists_of_fieldValues? hfs hv
    obtain ⟨name, -, hm⟩ := mem_of_mem_pick hos hp
    exact ⟨p, mem_of_keys? hkeyed hm, hpv⟩
  | array items =>
    simp only [fields?, Option.bind_eq_bind, Option.bind_eq_some_iff] at h
    obtain ⟨os, hos, hfs⟩ := h
    obtain ⟨p, hp, hpv⟩ := exists_of_fieldValues? hfs hv
    exact ⟨p, mem_of_mem_place hos hp, hpv⟩
  | null | bool | number | string => simp [fields?] at h

end Outline

namespace Format

variable {α : Type}

structure Restores (f : Format α) (room : ℕ) (a : α) : Prop where
  exact : (f.write a).Exact
  read?_eq : f.read? room (f.write a).outline = some a

/-- A written list of records is read record by record, whatever its layout. -/
theorem decode?_chars (f : Format α) {records : List α} (h : ∀ a ∈ records, (f.write a).Exact)
    (lay : Layout) :
    f.decode? (String.ofList ((Value.array (records.map f.write)).chars lay)).toUTF8 =
      records.mapM fun a => f.read? 126 (f.write a).outline := by
  have he : (Value.array (records.map f.write)).Exact := by
    rw [Value.Exact, Value.itemsExact_iff]
    intro v hv
    obtain ⟨a, ha, rfl⟩ := List.mem_map.1 hv
    exact h a ha
  rw [decode?, Value.ofBytes?_chars he]
  simp only [Value.outline, Value.outlines_eq_map, List.map_map, Outline.items?, Outline.maxDepth,
    Option.bind_eq_bind, Option.bind_some]
  exact List.mapM_map

/-- Records that are each restored are read back as the list they were written in. -/
theorem decode?_chars_of_restores (f : Format α) {records : List α}
    (h : ∀ a ∈ records, f.Restores 126 a) (lay : Layout) :
    f.decode? (String.ofList ((Value.array (records.map f.write)).chars lay)).toUTF8 =
      some records := by
  have hread := mapM_eq_some_of (g := id) fun a ha => (h a ha).read?_eq
  rw [f.decode?_chars (fun a ha => (h a ha).exact), hread, List.map_id]

theorem decode?_encode (f : Format α) {records : List α} (h : ∀ a ∈ records, f.Restores 126 a) :
    f.decode? (f.encode records) = some records :=
  f.decode?_chars_of_restores h .compact

/-- The records that are read of a text are read of the parts of its outline. -/
theorem exists_of_mem_decode? {f : Format α} {bytes : ByteArray} {records : List α}
    (h : f.decode? bytes = some records) {a : α} (ha : a ∈ records) :
    ∃ o, Outline.ofBytes? bytes = some o ∧ ∃ p ∈ o.parts, f.read? 126 p = some a := by
  simp only [decode?, Option.bind_eq_bind, Option.bind_eq_some_iff] at h
  obtain ⟨o, ho, ⟨room, items⟩, hitems, hread⟩ := h
  obtain ⟨p, hmem, hp⟩ := exists_of_mem_mapM hread ha
  cases o with
  | array os =>
    simp only [Outline.items?, Outline.maxDepth, Option.some.injEq, Prod.mk.injEq] at hitems
    obtain ⟨rfl, rfl⟩ := hitems
    exact ⟨_, ho, p, hmem, hp⟩
  | null | bool | number | string | object => simp [Outline.items?] at hitems

end Format

end PageScript.Json
