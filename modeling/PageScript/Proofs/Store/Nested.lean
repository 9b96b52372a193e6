import PageScript.Proofs.Store.Calls
import PageScript.Proofs.Store.Holding

/-!
# Records that nest too deep

Writing sets no limit to how deep a record nests, reading does: in a ledger there is room for 125
arrays and objects inside one another in the payload of an event or the metadata of a session.  A
text with a record that has more of them is not read at all, so adding that record leaves a ledger
that counts as empty, and the next record added is its only one (`deep_record_empties_ledger`).
-/

namespace PageScript

open Json

namespace Json.Value

mutual

/-- A written value is not read where there is less room than it nests. -/
theorem depth_le_of_value?_outline (v : Value) {room : ℕ} {w : Value}
    (h : v.outline.value? room = some w) : v.depth ≤ room := by
  match v, room with
  | .null, _ | .bool _, _ | .number _, _ | .string _, _ => simp [depth]
  | .array items, 0 | .object members, 0 => simp [outline, Outline.value?] at h
  | .array items, room + 1 =>
    simp only [outline, Outline.value?, Option.map_eq_some_iff] at h
    obtain ⟨ws, hws, -⟩ := h
    exact Nat.succ_le_succ (itemsDepth_le_of_values?_outlines items hws)
  | .object members, room + 1 =>
    simp only [outline, Outline.value?, Option.map_eq_some_iff] at h
    obtain ⟨ws, hws, -⟩ := h
    exact Nat.succ_le_succ (membersDepth_le_of_memberValues?_memberOutlines members hws)

theorem itemsDepth_le_of_values?_outlines (items : List Value) {room : ℕ} {ws : List Value}
    (h : Outline.values? room (outlines items) = some ws) : itemsDepth items ≤ room := by
  match items with
  | [] => simp [itemsDepth]
  | v :: rest =>
    simp only [outlines, Outline.values?, Option.bind_eq_bind, Option.bind_eq_some_iff] at h
    obtain ⟨w, hw, ws, hws, -⟩ := h
    exact max_le (depth_le_of_value?_outline v hw) (itemsDepth_le_of_values?_outlines rest hws)

theorem membersDepth_le_of_memberValues?_memberOutlines (members : List (String × Value))
    {room : ℕ} {ws : List (String × Value)}
    (h : Outline.memberValues? room (memberOutlines members) = some ws) :
    membersDepth members ≤ room := by
  match members with
  | [] => simp [membersDepth]
  | (k, v) :: rest =>
    simp only [memberOutlines, Outline.memberValues?, Option.bind_eq_bind,
      Option.bind_eq_some_iff] at h
    obtain ⟨-, -, w, hw, ws, hws, -⟩ := h
    exact max_le (depth_le_of_value?_outline v hw)
      (membersDepth_le_of_memberValues?_memberOutlines rest hws)

end

/-- So many arrays inside one another. -/
def nested : ℕ → Value
  | 0 => .null
  | n + 1 => .array [nested n]

theorem canonical_nested (n : ℕ) : (nested n).Canonical := by
  induction n with
  | zero => exact (plain_null 0).canonical
  | succ n ih =>
    exact (plain_array (List.forall_mem_singleton.2 (ih.plain le_rfl))).canonical

theorem depth_nested (n : ℕ) : (nested n).depth = n := by
  induction n with
  | zero => simp [nested, depth]
  | succ n ih => simp [nested, depth, itemsDepth, ih]

end Json.Value

namespace Json.Outline

theorem depth_le_of_fieldValues?_map_outline {room : ℕ} {vs fs : List (Option Value)}
    (h : fieldValues? room (vs.map (Option.map Value.outline)) = some fs) {v : Value}
    (hv : some v ∈ vs) : v.depth ≤ room := by
  induction vs generalizing fs with
  | nil => cases hv
  | cons u rest ih =>
    cases u with
    | none =>
      simp only [List.map_cons, Option.map_none, fieldValues?, Option.bind_eq_bind,
        Option.bind_eq_some_iff] at h
      obtain ⟨gs, hgs, -⟩ := h
      exact ih hgs (by simpa using hv)
    | some u =>
      simp only [List.map_cons, Option.map_some, fieldValues?, Option.bind_eq_bind,
        Option.bind_eq_some_iff] at h
      obtain ⟨w, hw, gs, hgs, -⟩ := h
      rcases List.mem_cons.1 hv with hv | hv
      · cases hv
        exact Value.depth_le_of_value?_outline v hw
      · exact ih hgs hv

/-- The fields of a written record are read only where there is room for each of them. -/
theorem depth_le_of_fields?_outline {names : List String} {room : ℕ}
    {ms : List (String × Value)} {vs fs : List (Option Value)} (hp : pick names ms = some vs)
    (h : (Value.object ms).outline.fields? names (room + 1) = some fs) {v : Value}
    (hv : some v ∈ vs) : v.depth ≤ room := by
  simp only [Value.outline, fields?, keys?_memberOutlines, pick_map, hp, Option.map_some,
    Option.bind_eq_bind, Option.bind_some] at h
  exact depth_le_of_fieldValues?_map_outline h hv

end Json.Outline

namespace Json.Format

variable {α : Type}

/-- Where a list of records has one that is not read, the text of the list is not. -/
theorem decode?_encode_eq_none (f : Format α) {records : List α}
    (he : ∀ a ∈ records, (f.write a).Exact) {a : α} (ha : a ∈ records)
    (hr : f.read? 126 (f.write a).outline = none) : f.decode? (f.encode records) = none := by
  have hread : f.decode? (f.encode records) = _ := f.decode?_chars he .compact
  rw [hread, Option.eq_none_iff_forall_ne_some]
  intro bs hbs
  obtain ⟨b, hb⟩ := exists_of_mapM hbs ha
  rw [hr] at hb
  cases hb

/-- That the records which are `Sound` are read back if they nest no deeper than 125, and else not
read at all. -/
structure Nests (f : Format α) (Sound : α → Prop) (nesting : α → ℕ) : Prop where
  exact : ∀ a, Sound a → (f.write a).Exact
  restores : ∀ a, Sound a → nesting a ≤ 125 → f.Restores 126 a
  read?_eq : ∀ a, Sound a → 125 < nesting a → f.read? 126 (f.write a).outline = none

end Json.Format

namespace Event

/-- How deep the free-form part of an event nests. -/
def nesting (e : Event) : ℕ := e.payload.depth

theorem depth_le_of_read? {room : ℕ} {e e' : Event}
    (h : format.read? (room + 1) e.toValue.outline = some e') : e.nesting ≤ room := by
  simp only [format, read?, Option.bind_eq_bind, Option.bind_eq_some_iff] at h
  obtain ⟨fs, hfs, -⟩ := h
  exact Outline.depth_le_of_fields?_outline (pick_toValue e) hfs (by simp)

theorem nests : format.Nests (·.payload.Canonical) nesting where
  exact _ h := exact_toValue h.exact
  restores _ h hd := restores (h.plain hd)
  read?_eq e _ hd := by
    rw [Option.eq_none_iff_forall_ne_some]
    intro e' he'
    exact absurd (depth_le_of_read? he') (by omega)

end Event

namespace Session

/-- How deep the free-form part of a session nests. -/
def nesting (s : Session) : ℕ := (s.metadata.map fun m => (Value.object m).depth).getD 0

theorem depth_le_nesting {s : Session} {m : Members} (hm : m ∈ s.metadata) :
    (Value.object m).depth ≤ s.nesting := by
  have hm : s.metadata = some m := hm
  rw [nesting, hm, Option.map_some, Option.getD_some]

theorem nesting_le_of_plain {room : ℕ} {s : Session} (h : s.Plain room) : s.nesting ≤ room := by
  rcases hm : s.metadata with _ | m
  · simp [nesting, hm]
  · simpa [nesting, hm] using (h m hm).depth_le

theorem depth_le_of_read? {room : ℕ} {s s' : Session}
    (h : format.read? (room + 1) s.toValue.outline = some s') : s.nesting ≤ room := by
  simp only [format, read?, Option.bind_eq_bind, Option.bind_eq_some_iff] at h
  obtain ⟨fs, hfs, -⟩ := h
  rcases hm : s.metadata with _ | m
  · simp [nesting, hm]
  · have hd := Outline.depth_le_of_fields?_outline (pick_toValue s) hfs (v := .object m)
      (by simp [hm])
    simpa [nesting, hm] using hd

theorem nests : format.Nests (fun s => ∀ m ∈ s.metadata, (Value.object m).Canonical) nesting where
  exact _ h := exact_toValue fun m hm => (h m hm).exact
  restores _ h hd := restores fun m hm => (h m hm).plain ((depth_le_nesting hm).trans hd)
  read?_eq s _ hd := by
    rw [Option.eq_none_iff_forall_ne_some]
    intro s' hs'
    exact absurd (depth_le_of_read? hs') (by omega)

end Session

namespace Desk

variable {α : Type}

/-- From the desk `d` to the desk `q` actions of some kind succeeded, one after the other, and
these are the records they returned. -/
inductive Returns (Kind : Action α → Prop) : Desk → List α → Desk → Prop
  | none (d : Desk) : Returns Kind d [] d
  | next {x : Action α} {a : α} {as : List α} {d q q' : Desk} (hx : Kind x)
    (h : x.run d = (.ok a, q)) (hrest : Returns Kind q as q') : Returns Kind d (a :: as) q'

/-- A desk with these slots in memory, at which nothing is set to fail. -/
def inMemory (slots : Table ByteArray) : Desk :=
  ⟨.memory slots, [], 0, .countingFrom 1, []⟩

end Desk

namespace Ledger

variable {α : Type}

/-- What there is left to read of the records `as` and of new ones that are added to them: one that
nests too deep costs all records up to itself. -/
def left (nesting : α → ℕ) (as new : List α) : List α :=
  new.foldl (fun as a => if nesting a ≤ 125 then as ++ [a] else []) as

theorem length_left_le (nesting : α → ℕ) (as new : List α) :
    (left nesting as new).length ≤ as.length + new.length := by
  induction new generalizing as with
  | nil => exact le_rfl
  | cons a rest ih =>
    rw [left, List.foldl_cons]
    refine (ih _).trans ?_
    split
    · simp only [List.length_append, List.length_cons, List.length_nil]
      omega
    · simp only [List.length_cons, List.length_nil]
      omega

/-- All records are left only when none of the new ones nests too deep. -/
theorem left_eq_append_iff (nesting : α → ℕ) (as new : List α) :
    left nesting as new = as ++ new ↔ ∀ a ∈ new, nesting a ≤ 125 := by
  induction new generalizing as with
  | nil => simp [left]
  | cons a rest ih =>
    rw [List.forall_mem_cons]
    by_cases ha : nesting a ≤ 125
    · have hstep : left nesting as (a :: rest) = left nesting (as ++ [a]) rest := by
        rw [left, List.foldl_cons, if_pos ha, left]
      rw [hstep, List.append_cons as a rest, ih]
      exact ⟨fun h => ⟨ha, h⟩, And.right⟩
    · have hstep : left nesting as (a :: rest) = left nesting [] rest := by
        rw [left, List.foldl_cons, if_neg ha, left]
      refine ⟨fun h => ?_, fun h => absurd h.1 ha⟩
      have hlen := length_left_le nesting [] rest
      rw [← hstep, h] at hlen
      simp at hlen
      omega

variable {l : Ledger α} {Sound : α → Prop} {nesting : α → ℕ}

/-- What can be read after one record was added to readable ones. -/
theorem records_save_concat (hf : l.format.Nests Sound nesting) {as : List α} {a : α}
    (has : ∀ x ∈ as, Sound x ∧ nesting x ≤ 125) (ha : Sound a) {b b' : Backing}
    (h : l.Saves (as ++ [a]) b b') :
    l.records b' = if nesting a ≤ 125 then as ++ [a] else [] := by
  have hsound : ∀ x ∈ as ++ [a], Sound x :=
    List.forall_mem_append.2 ⟨fun x hx => (has x hx).1, List.forall_mem_singleton.2 ha⟩
  split
  · rename_i hd
    refine records_save_self (List.forall_mem_append.2 ⟨fun x hx => ?_, ?_⟩) h
    · exact hf.restores x (has x hx).1 (has x hx).2
    · exact List.forall_mem_singleton.2 (hf.restores a ha hd)
  · rename_i hd
    have hnone := l.format.decode?_encode_eq_none (fun x hx => hf.exact x (hsound x hx))
      (List.mem_append_right as List.mem_cons_self) (hf.read?_eq a ha (not_le.1 hd))
    simp [records, Backing.load_save_self h, view, hnone]

/-- What can be read after records were added by actions each of which adds the record that it
returns. -/
theorem records_of_returns (hf : l.format.Nests Sound nesting) {Kind : Action α → Prop}
    (hkind : ∀ x, Kind x → ∀ d a q, x.run d = (.ok a, q) →
      Sound a ∧ l.Saves (l.records d.backing ++ [a]) d.backing q.backing)
    {d q : Desk} {new : List α} (h : Desk.Returns Kind d new q)
    (hold : ∀ x ∈ l.records d.backing, Sound x ∧ nesting x ≤ 125) :
    l.records q.backing = left nesting (l.records d.backing) new := by
  induction h with
  | none d => rfl
  | @next x a rest d q q' hx hrun _ ih =>
    obtain ⟨ha, hsaves⟩ := hkind x hx d a q hrun
    have hstep := records_save_concat hf hold ha hsaves
    rw [left, List.foldl_cons, ← hstep]
    refine ih fun y hy => ?_
    rw [hstep] at hy
    split at hy
    · rename_i hd
      rcases List.mem_append.1 hy with hy | hy
      · exact hold y hy
      · exact List.mem_singleton.1 hy ▸ ⟨ha, hd⟩
    · cases hy

end Ledger

namespace Chain

theorem push_of_spare (kind : String) (payload : Value) {d : Desk} {slots : Table ByteArray}
    (hb : d.backing = .memory slots) (hload : Fault.Spare .load d.faults)
    (hsave : Fault.Spare .save d.faults) :
    ∃ q, (push kind payload).run d = (.ok (nextEvent kind payload d), q) ∧
      q.backing = .memory (slots.put ledger.key
        (ledger.format.encode (ledger.records d.backing ++ [nextEvent kind payload d]))) ∧
      q.faults = d.faults := by
  have hm : newEvent kind payload d = (nextEvent kind payload d,
      { d with ids := { d.ids with drawn := d.ids.drawn + 1 } }) := rfl
  exact ledger.make_of_spare hm rfl rfl hb hload hsave

/-- Pushing an event with any payload whose numbers are whole, however deep it nests. -/
def Pushes (x : Action Event) : Prop :=
  ∃ kind payload, payload.Canonical ∧ x = push kind payload

theorem saves_of_pushes {x : Action Event} (hx : Pushes x) {d q : Desk} {e : Event}
    (h : x.run d = (.ok e, q)) :
    e.payload.Canonical ∧
      ledger.Saves (ledger.records d.backing ++ [e]) d.backing q.backing := by
  obtain ⟨kind, payload, hp, rfl⟩ := hx
  have hadds := adds_push kind payload d
  rw [h] at hadds
  cases hadds with
  | added _ hb => exact ⟨hp, hb⟩

end Chain

namespace Payments

/-- Creating a session with any metadata whose numbers are whole, however deep they nest. -/
def Creates (x : Action Session) : Prop :=
  ∃ amountCents currency metadata, (∀ m ∈ metadata, (Value.object m).Canonical) ∧
    x = create amountCents currency metadata

theorem saves_of_creates {x : Action Session} (hx : Creates x) {d q : Desk} {s : Session}
    (h : x.run d = (.ok s, q)) :
    (∀ m ∈ s.metadata, (Value.object m).Canonical) ∧
      ledger.Saves (ledger.records d.backing ++ [s]) d.backing q.backing := by
  obtain ⟨amountCents, currency, metadata, hm, rfl⟩ := hx
  have hadds := adds_create amountCents currency metadata d
  rw [h] at hadds
  cases hadds with
  | added _ hb => exact ⟨hm, hb⟩

end Payments

/-- Events and sessions that are added to readable ones can be read after these, provided that
none of them nests deeper than 125.  One that does empties its ledger. -/
theorem deep_record_empties_ledger {d q : Desk} :
    ((∀ e ∈ Chain.ledger.records d.backing, e.payload.Exact) →
        ∀ new, Desk.Returns Chain.Pushes d new q →
          Chain.ledger.records q.backing =
              Ledger.left Event.nesting (Chain.ledger.records d.backing) new ∧
            (Chain.ledger.records q.backing = Chain.ledger.records d.backing ++ new ↔
              ∀ e ∈ new, e.nesting ≤ 125)) ∧
      ((∀ s ∈ Payments.ledger.records d.backing, ∀ m ∈ s.metadata, (Value.object m).Exact) →
        ∀ new, Desk.Returns Payments.Creates d new q →
          Payments.ledger.records q.backing =
              Ledger.left Session.nesting (Payments.ledger.records d.backing) new ∧
            (Payments.ledger.records q.backing = Payments.ledger.records d.backing ++ new ↔
              ∀ s ∈ new, s.nesting ≤ 125)) := by
  refine ⟨fun hold new h => ?_, fun hold new h => ?_⟩
  · have hleft := Ledger.records_of_returns Event.nests
      (fun x hx d e q => Chain.saves_of_pushes hx) h fun e he => by
        obtain ⟨o, ho⟩ := Ledger.exists_of_mem_records he
        have hp : e.Plain 125 := Event.plain_of_read? ho (hold e he)
        exact ⟨hp.canonical, hp.depth_le⟩
    exact ⟨hleft, hleft ▸ Ledger.left_eq_append_iff _ _ _⟩
  · have hleft := Ledger.records_of_returns Session.nests
      (fun x hx d s q => Payments.saves_of_creates hx) h fun s hs => by
        have hp := Payments.plain_records hold s hs
        exact ⟨fun m hm => (hp m hm).canonical, Session.nesting_le_of_plain hp⟩
    exact ⟨hleft, hleft ▸ Ledger.left_eq_append_iff _ _ _⟩

theorem deep_record_empties_ledger_nested :
    let d := Desk.inMemory []
    ∃ e e' q, (∀ e ∈ Chain.ledger.records d.backing, e.payload.Exact) ∧
      Desk.Returns Chain.Pushes d [e, e'] q ∧ e.payload = .null ∧ e'.payload = .nested 126 ∧
        Chain.ledger.records q.backing = [] := by
  intro d
  have hold : ∀ e ∈ Chain.ledger.records d.backing, e.payload.Exact := List.forall_mem_nil _
  obtain ⟨q, h, hb, hf⟩ := Chain.push_of_spare "old" .null (d := d) rfl (List.forall_mem_nil _)
    (List.forall_mem_nil _)
  have hspare (access : Access) : Fault.Spare access q.faults := hf ▸ List.forall_mem_nil _
  obtain ⟨q', h', -⟩ := Chain.push_of_spare "deep" (.nested 126) hb (hspare _) (hspare _)
  have hreturns : Desk.Returns Chain.Pushes d [_, _] q' :=
    .next ⟨_, _, (Value.plain_null 0).canonical, rfl⟩ h
      (.next ⟨_, _, Value.canonical_nested 126, rfl⟩ h' (.none q'))
  obtain ⟨hleft, -⟩ := deep_record_empties_ledger.1 hold _ hreturns
  refine ⟨_, _, q', hold, hreturns, rfl, rfl, hleft.trans ?_⟩
  have hdeep : ¬ (Value.nested 126).depth ≤ 125 := by rw [Value.depth_nested]; decide
  simp [Ledger.left, Event.nesting, Chain.nextEvent, hdeep]

/-- The integer `3 * 10 ^ 23` as it is read, and as it is read back from how it is written. -/
def wide : Value := .number (.double ⟨false, ⟨8940696716308594, 25⟩⟩)

def wideReread : Value := .number (.double ⟨false, ⟨8940696716308593, 25⟩⟩)

set_option maxRecDepth 2000 in
theorem ofBytes?_wide : Value.ofBytes? "300000000000000000000000".toUTF8 = some wide := rfl

theorem nextEvent_wide : Chain.nextEvent "total" wide (Desk.inMemory []) =
    ⟨"ev_0_00000000000040008000000000000001", "total", wide, 0⟩ :=
  congrArg (Event.mk · "total" wide 0) (by decide +kernel)

theorem encode_wide :
    Chain.ledger.format.encode [⟨"ev_0_00000000000040008000000000000001", "total", wide, 0⟩] =
      ("[\x7b\"id\":\"ev_0_00000000000040008000000000000001\",\"type\":\"total\"," ++
        "\"payload\":3e+23,\"timestamp\":0\x7d]").toUTF8 :=
  congrArg String.toUTF8 (by decide +kernel)

/-- One push costs the event that was there before, and another does not keep the integer it was
given. -/
theorem push_not_read_back :
    (∃ d old e q, d = Desk.inMemory [("pdfx_mock_chain", "[[\"ev\",\"old\",null,0]]".toUTF8)] ∧
      Chain.ledger.records d.backing = [old] ∧
        (Chain.push "deep" (.nested 126)).run d = (.ok e, q) ∧
          Chain.ledger.records q.backing = []) ∧
    Value.ofBytes? "300000000000000000000000".toUTF8 = some wide ∧
    ∃ e q, (Chain.push "total" wide).run (Desk.inMemory []) = (.ok e, q) ∧ e.payload = wide ∧
      Chain.ledger.records q.backing = [{ e with payload := wideReread }] ∧ wideReread ≠ wide := by
  refine ⟨?_, ofBytes?_wide, ?_⟩
  · let d := Desk.inMemory [("pdfx_mock_chain", "[[\"ev\",\"old\",null,0]]".toUTF8)]
    have hold : Chain.ledger.records d.backing = [⟨"ev", "old", .null, 0⟩] := rfl
    obtain ⟨q, h, -⟩ := Chain.push_of_spare "deep" (.nested 126) (d := d) rfl
      (List.forall_mem_nil _) (List.forall_mem_nil _)
    refine ⟨d, _, _, q, rfl, hold, h, ?_⟩
    have hpushes : Chain.Pushes (Chain.push "deep" (.nested 126)) :=
      ⟨_, _, Value.canonical_nested 126, rfl⟩
    obtain ⟨hp, hsaves⟩ := Chain.saves_of_pushes hpushes h
    rw [hold] at hsaves
    have hsound : ∀ e ∈ [(⟨"ev", "old", .null, 0⟩ : Event)],
        e.payload.Canonical ∧ e.nesting ≤ 125 :=
      List.forall_mem_singleton.2 ⟨(Value.plain_null 0).canonical, Nat.zero_le _⟩
    have hkept := Ledger.records_save_concat Event.nests hsound hp hsaves
    rw [hkept, if_neg]
    rw [Event.nesting, Chain.nextEvent, Value.depth_nested]
    decide
  · obtain ⟨q, h, hb, -⟩ := Chain.push_of_spare "total" wide (d := Desk.inMemory []) rfl
      (List.forall_mem_nil _) (List.forall_mem_nil _)
    refine ⟨_, q, h, rfl, ?_, by simp [wide, wideReread]⟩
    have hold : Chain.ledger.records (Desk.inMemory []).backing = [] := rfl
    rw [hb, hold, List.nil_append, nextEvent_wide, encode_wide]
    rfl

end PageScript
