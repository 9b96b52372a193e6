import PageScript.CommandLine.Perform
import PageScript.Proofs.Runner.Operations

/-!
# Reading undoes writing

Effects, plans, and lists of events and sessions are read back from what is written of them, in
either layout, as long as their free-form parts hold no other numbers than those that are kept
exactly and the text nests no deeper than a text may (`reading_undoes_writing`).  An unknown effect
is one of these even if its `op` names a known kind: it has no fields, and no kind can do without
any (`Effect.ofKind?_empty`).

A format is `Format.Regular` when it restores all records that meet some condition and every
record that it reads meets it, if not for its numbers.  So what was read of a text whose numbers are
kept exactly, written and read again, stays as it is.
-/

namespace PageScript

open Json

namespace Json

/-- Whether all numbers in a text, those aside that denote nothing, are whole and kept exactly. -/
def ExactText (bytes : ByteArray) : Prop :=
  ∀ o, Outline.ofBytes? bytes = some o → o.Exact

/-- That sound records are read back as they were, in whatever layout they are written, as long as
their text nests no deeper than a text may.  Records which were read with exact numbers, as they
are when all numbers in the text are, can be written and read again without change. -/
structure Faithful {α : Type} (write : α → Value) (read? : ByteArray → Option α)
    (Sound Exact : α → Prop) : Prop where
  restores : ∀ a, Sound a → (write a).depth ≤ Outline.maxDepth → ∀ lay : Layout,
    read? (String.ofList ((write a).chars lay)).toUTF8 = some a
  settles : ∀ bytes a, read? bytes = some a → Exact a → ∀ lay : Layout,
    read? (String.ofList ((write a).chars lay)).toUTF8 = some a
  exact : ∀ bytes a, read? bytes = some a → ExactText bytes → Exact a

/-- An optional field is read from what it was written as. -/
theorem optional_map {α : Type} {read : Value → Option α} (write : α → Value)
    (hread : ∀ a, read (write a) = some a) (hnull : ∀ a, write a ≠ .null) (o : Option α) :
    optional read (o.map write) = some o := by
  rcases o with _ | a
  · rfl
  · rw [Option.map_some, optional, hread, Option.map_some]
    exact hnull a

namespace Format

variable {α : Type} {f : Format α} {Sound Exact : α → Prop}

/-- What a record needs to be read back where there is so much room, and that every record which
is read there meets it. -/
structure Regular (f : Format α) (room : ℕ) (Sound Exact : α → Prop) : Prop where
  restores : ∀ a, Sound a → (f.write a).depth ≤ room → f.Restores room a
  sound : ∀ o a, f.read? room o = some a → Exact a → Sound a ∧ (f.write a).depth ≤ room
  exact : ∀ o a, f.read? room o = some a → o.Exact → Exact a

theorem Regular.one (h : f.Regular Outline.maxDepth Sound Exact) :
    Faithful f.write f.decodeOne? Sound Exact := by
  have hback : ∀ a, Sound a → (f.write a).depth ≤ Outline.maxDepth → ∀ lay : Layout,
      f.decodeOne? (String.ofList ((f.write a).chars lay)).toUTF8 = some a := by
    intro a ha hd lay
    obtain ⟨he, hread⟩ := h.restores a ha hd
    rw [decodeOne?, Value.ofBytes?_chars he, Option.bind_eq_bind, Option.bind_some, hread]
  refine ⟨hback, fun bytes a hbytes he => ?_, fun bytes a hbytes htext => ?_⟩
  · obtain ⟨o, -, ho⟩ := Option.bind_eq_some_iff.1 hbytes
    obtain ⟨ha, hd⟩ := h.sound o a ho he
    exact hback a ha hd
  · obtain ⟨o, hread, ho⟩ := Option.bind_eq_some_iff.1 hbytes
    exact h.exact o a ho (htext o hread)

theorem Regular.list (h : f.Regular 126 Sound Exact) :
    Faithful (fun as => .array (as.map f.write)) f.decode? (∀ a ∈ ·, Sound a)
      (∀ a ∈ ·, Exact a) := by
  refine ⟨fun as has hd => f.decode?_chars_of_restores fun a ha => ?_, fun bytes as hbytes he => ?_,
    fun bytes as hbytes htext a ha => ?_⟩
  · rw [Value.depth, Outline.maxDepth, Nat.succ_le_succ_iff, Value.itemsDepth_le_iff] at hd
    exact h.restores a (has a ha) (hd _ (List.mem_map_of_mem ha))
  · refine f.decode?_chars_of_restores fun a ha => ?_
    obtain ⟨_, -, p, -, hp⟩ := exists_of_mem_decode? hbytes ha
    obtain ⟨hsound, hd⟩ := h.sound p a hp (he a ha)
    exact h.restores a hsound hd
  · obtain ⟨o, ho, p, hmem, hp⟩ := exists_of_mem_decode? hbytes ha
    exact h.exact p a hp (Outline.exact_of_mem_parts hmem (htext o ho))

end Format

end Json

namespace Event

theorem depth_toValue (e : Event) : e.toValue.depth = e.payload.depth + 1 := by
  simp [toValue, Value.depth, Value.membersDepth, Value.int]

theorem regular (room : ℕ) :
    format.Regular (room + 1) (·.payload.Canonical) (·.payload.Exact) where
  restores e h hd := by
    rw [show format.write e = e.toValue from rfl, depth_toValue, Nat.succ_le_succ_iff] at hd
    exact restores (h.plain hd)
  sound o e h he := by
    have hp := plain_of_read? h he
    exact ⟨hp.canonical, e.depth_toValue ▸ Nat.succ_le_succ hp.depth_le⟩
  exact _ _ h ho := exact_of_read? h ho

end Event

namespace Session

theorem depth_toValue_le_iff {s : Session} {room : ℕ} :
    s.toValue.depth ≤ room + 1 ↔ ∀ m ∈ s.metadata, (Value.object m).depth ≤ room := by
  refine ⟨fun h m hm => ?_, depth_toValue_le⟩
  rw [toValue, Value.depth, Nat.succ_le_succ_iff, Value.membersDepth_le_iff] at h
  have hm : s.metadata = some m := hm
  exact h ("metadata", .object m) (by simp [hm, optionalMember])

theorem regular (room : ℕ) :
    format.Regular (room + 1) (fun s => ∀ m ∈ s.metadata, (Value.object m).Canonical)
      (fun s => ∀ m ∈ s.metadata, (Value.object m).Exact) where
  restores s h hd := restores fun m hm => (h m hm).plain (depth_toValue_le_iff.1 hd m hm)
  sound o s h he := by
    have hp := plain_of_read? h he
    exact ⟨fun m hm => (hp m hm).canonical, depth_toValue_le fun m hm => (hp m hm).depth_le⟩
  exact _ _ h ho := exact_of_read? h ho

end Session

namespace Effect

/-- Whether the metadata to be minted is in order and has only numbers that are kept exactly. -/
def Canonical : Effect → Prop
  | .mintNft metadata => (Value.object metadata).Canonical
  | _ => True

theorem ne_op_of_mem_members {e : Effect} {m : String × Value} (h : m ∈ e.members) :
    m.1 ≠ "op" := by
  have hkeys : "op" ∉ e.members.map Prod.fst := by
    cases e with
    | lockPages pages price => rcases price <;> simp [members, optionalMember]
    | runPayment price reason => rcases reason <;> simp [members, optionalMember]
    | log | addWatermark | highlightText | mintNft | unknown => simp [members]
  exact fun hm => hkeys (hm ▸ List.mem_map_of_mem h)

theorem pages?_pagesValue (pages : List UInt32) : pages? (pagesValue pages) = some pages := by
  have h : (pages.map fun p => Value.nat p.toNat).mapM Value.uint32? = some pages := by
    rw [List.mapM_map]
    exact (mapM_eq_some_of (g := id) fun p _ => Value.uint32?_nat p).trans (by rw [List.map_id])
  exact h

theorem kind_mem_kinds {e : Effect} (hk : ∀ op, e ≠ .unknown op) : e.kind ∈ kinds := by
  cases e with
  | unknown op => exact absurd rfl (hk op)
  | log | addWatermark | highlightText | lockPages | mintNft | runPayment => simp [kind, kinds]

section Fields

variable {v : Value} {f g : Option Value}

theorem ofFields?_addWatermark {page : UInt32} {text : String}
    (hv : v.fields? ["page", "text"] = some [f, g])
    (hpage : required Value.uint32? f = some page) (htext : required Value.string? g = some text) :
    ofFields? "addWatermark" v = some (.addWatermark page text) := by
  simp [ofFields?, hv, hpage, htext]

theorem ofFields?_lockPages {pages : List UInt32} {price : Option UInt64}
    (hv : v.fields? ["pages", "priceCents"] = some [f, g])
    (hpages : required pages? f = some pages) (hprice : optional Value.uint64? g = some price) :
    ofFields? "lockPages" v = some (.lockPages pages price) := by
  simp [ofFields?, hv, hpages, hprice]

theorem ofFields?_runPayment {price : UInt64} {reason : Option String}
    (hv : v.fields? ["priceCents", "reason"] = some [f, g])
    (hprice : required Value.uint64? f = some price)
    (hreason : optional Value.string? g = some reason) :
    ofFields? "runPayment" v = some (.runPayment price reason) := by
  simp [ofFields?, hv, hprice, hreason]

end Fields

/-- The members of a known effect are read as the fields of its kind. -/
theorem ofFields?_members {e : Effect} (h : e.Canonical) (hk : ∀ op, e ≠ .unknown op) :
    ofFields? e.kind (.object e.members) = some e := by
  cases e with
  | log message | highlightText text =>
    simp [kind, members, ofFields?, Value.fields?, pick, pickOne, required, Value.string?]
  | addWatermark page text =>
    have hv : pick ["page", "text"] (members (.addWatermark page text)) =
        some [some (.nat page.toNat), some (.string text)] := by
      simp [members, pick, pickOne]
    exact ofFields?_addWatermark hv (required_some (Value.uint32?_nat page)) rfl
  | lockPages pages price =>
    have hv : pick ["pages", "priceCents"] (members (.lockPages pages price)) =
        some [some (pagesValue pages), price.map fun c => .nat c.toNat] := by
      rcases price with _ | c <;> simp [members, optionalMember, pick, pickOne]
    have hprice := optional_map (fun c : UInt64 => .nat c.toNat) Value.uint64?_nat
      (fun c => by simp [Value.nat]) price
    exact ofFields?_lockPages hv (required_some (pages?_pagesValue pages)) hprice
  | mintNft metadata =>
    have hs : Value.object (Members.ofList (Value.sortedMembers metadata)) = .object metadata :=
      h.sorted_eq
    have hm : (Value.object metadata).members? = some metadata := by
      simpa [Value.members?] using hs
    simp [kind, members, ofFields?, Value.fields?, pick, pickOne, required, hm]
  | runPayment price reason =>
    have hv : pick ["priceCents", "reason"] (members (.runPayment price reason)) =
        some [some (.nat price.toNat), reason.map .string] := by
      rcases reason with _ | r <;> simp [members, optionalMember, pick, pickOne]
    exact ofFields?_runPayment hv (required_some (Value.uint64?_nat price))
      (optional_map .string (fun r => rfl) (by rintro r ⟨⟩) reason)
  | unknown op => exact absurd rfl (hk op)

/-- No kind can do without all of its fields. -/
theorem ofKind?_empty (op : String) : ofKind? (.string op) (.object []) = none := by
  by_cases h : op ∈ kinds
  · simp only [kinds, List.mem_cons, List.not_mem_nil, or_false] at h
    rcases h with rfl | rfl | rfl | rfl | rfl | rfl <;> rfl
  · simp [ofKind?, kindOf?, h]

/-- What is written of an effect is read as this effect. -/
theorem ofValue?_toValue {e : Effect} (h : e.Canonical) : ofValue? e.toValue = some e := by
  have hpick : pick ["op"] (("op", .string e.kind) :: e.members) =
      some [some (.string e.kind)] := by
    have hnone : e.members.filter (·.1 = "op") = [] :=
      List.filter_eq_nil_iff.2 fun m hm => by simp [ne_op_of_mem_members hm]
    simp [pick, pickOne, hnone]
  have hrest : (("op", .string e.kind) :: e.members).filter (·.1 ≠ "op") = e.members := by
    rw [List.filter_cons_of_neg (by simp), List.filter_eq_self]
    exact fun m hm => by simp [ne_op_of_mem_members hm]
  rw [toValue, ofValue?, hpick, hrest]
  dsimp only
  by_cases hk : ∃ op, e = .unknown op
  · obtain ⟨op, rfl⟩ := hk
    rw [kind, members, ofKind?_empty]
    rfl
  · rw [not_exists] at hk
    have hkind : kindOf? (.string e.kind) = some e.kind := if_pos (kind_mem_kinds hk)
    rw [ofKind?, hkind, Option.bind_eq_bind, Option.bind_some, ofFields?_members h hk]

theorem exact_pagesValue (pages : List UInt32) : (pagesValue pages).Exact := by
  rw [pagesValue, Value.Exact, Value.itemsExact_iff]
  intro v hv
  obtain ⟨p, -, rfl⟩ := List.mem_map.1 hv
  exact Value.exact_uint32 p

theorem depth_pagesValue_le (pages : List UInt32) : (pagesValue pages).depth ≤ 1 := by
  rw [pagesValue, Value.depth, Nat.succ_le_succ_iff, Value.itemsDepth_le_iff]
  intro v hv
  obtain ⟨p, -, rfl⟩ := List.mem_map.1 hv
  exact Nat.zero_le _

theorem exact_toValue {e : Effect} (h : e.Canonical) : e.toValue.Exact := by
  rw [toValue, Value.Exact, Value.membersExact_iff, List.forall_mem_cons]
  refine ⟨Value.exact_string _, ?_⟩
  cases e with
  | log | highlightText => simp [members, Value.exact_string]
  | addWatermark => simp [members, Value.exact_string, Value.exact_uint32]
  | lockPages pages price =>
    rcases price <;> simp [members, optionalMember, exact_pagesValue, Value.exact_uint64]
  | mintNft metadata => exact List.forall_mem_singleton.2 h.exact
  | runPayment price reason =>
    rcases reason <;> simp [members, optionalMember, Value.exact_string, Value.exact_uint64]
  | unknown => simp [members]

/-- An effect nests no deeper than its metadata, if not for a list of pages. -/
theorem depth_toValue_le {e : Effect} {room : ℕ}
    (h : ∀ metadata, e = .mintNft metadata → (Value.object metadata).depth ≤ room + 1) :
    e.toValue.depth ≤ room + 2 := by
  rw [toValue, Value.depth, Nat.succ_le_succ_iff, Value.membersDepth_le_iff, List.forall_mem_cons]
  refine ⟨by simp [Value.depth], ?_⟩
  cases e with
  | log | highlightText => simp [members, Value.depth]
  | addWatermark => simp [members, Value.depth, Value.nat]
  | lockPages pages price =>
    have hd := (depth_pagesValue_le pages).trans (Nat.le_add_left 1 room)
    rcases price <;> simp [members, optionalMember, hd, Value.depth, Value.nat]
  | mintNft metadata => exact List.forall_mem_singleton.2 (h metadata rfl)
  | runPayment price reason =>
    rcases reason <;> simp [members, optionalMember, Value.depth, Value.nat]
  | unknown => simp [members]

theorem canonical_of_ofValue? {v : Value} {e : Effect} (h : ofValue? v = some e) (he : e.Exact)
    {room : ℕ} (hd : v.depth ≤ room + 2) : e.Canonical ∧ e.toValue.depth ≤ room + 2 := by
  cases e with
  | mintNft metadata =>
    obtain ⟨u, hu, hm⟩ := metadata_of_ofValue? h
    have hp := Value.plain_of_members? hm he (Value.depth_le_of_mem_parts hu hd)
    refine ⟨hp.canonical, depth_toValue_le fun m hm => ?_⟩
    cases hm
    exact hp.depth_le
  | log | addWatermark | highlightText | lockPages | runPayment | unknown =>
    exact ⟨trivial, depth_toValue_le nofun⟩

theorem regular (room : ℕ) : format.Regular (room + 2) Canonical Exact where
  restores e h hd := by
    have he := exact_toValue h
    refine ⟨he, ?_⟩
    have hread : (e.toValue.outline.value? (room + 2)).bind ofValue? = some e := by
      rw [Value.value?_outline _ he hd, Option.bind_some, ofValue?_toValue h]
    exact hread
  sound o e h he := by
    obtain ⟨v, hv, hread⟩ := Option.bind_eq_some_iff.1 h
    exact canonical_of_ofValue? hread he (Outline.depth_le_of_value? o hv)
  exact o e h ho := by
    obtain ⟨v, hv, hread⟩ := Option.bind_eq_some_iff.1 h
    exact exact_of_ofValue? hread (Outline.exact_of_value? o hv ho)

end Effect

namespace Plan

/-- A plan is read once each of its fields is. -/
theorem read?_of_fields {room : ℕ} {o : Outline} {p : Plan}
    {success effects explanation : Option Value}
    (h : o.fields? ["success", "effects", "explanation"] room =
      some [success, effects, explanation])
    (hsuccess : required Value.bool? success = some p.success)
    (heffects : required effects? effects = some p.effects)
    (hexplanation : Json.optional Value.string? explanation = some p.explanation) :
    read? room o = some p := by
  simp [read?, h, hsuccess, heffects, hexplanation]

theorem pick_toValue (p : Plan) :
    pick ["success", "effects", "explanation"]
      ([("success", Value.bool p.success), ("effects", .array (p.effects.map Effect.toValue))] ++
        optionalMember "explanation" Value.string p.explanation) =
      some [some (.bool p.success), some (.array (p.effects.map Effect.toValue)),
        p.explanation.map .string] := by
  rcases p.explanation with _ | e <;> simp [pick, pickOne, optionalMember]

theorem effects?_map_toValue {effects : List Effect} (h : ∀ e ∈ effects, e.Canonical) :
    effects? (.array (effects.map Effect.toValue)) = some effects := by
  have hread : (effects.map Effect.toValue).mapM Effect.ofValue? = some effects := by
    rw [List.mapM_map]
    exact (mapM_eq_some_of (g := id) fun e he => Effect.ofValue?_toValue (h e he)).trans
      (by rw [List.map_id])
  exact hread

theorem exact_toValue {p : Plan} (h : ∀ e ∈ p.effects, e.Canonical) : p.toValue.Exact := by
  have heffects : (Value.array (p.effects.map Effect.toValue)).Exact := by
    rw [Value.Exact, Value.itemsExact_iff]
    intro v hv
    obtain ⟨e, he, rfl⟩ := List.mem_map.1 hv
    exact Effect.exact_toValue (h e he)
  rw [toValue, Value.Exact, Value.membersExact_iff, List.forall_mem_append]
  refine ⟨List.forall_mem_cons.2 ⟨by simp [Value.Exact], List.forall_mem_singleton.2 heffects⟩, ?_⟩
  rcases p.explanation <;> simp [optionalMember, Value.exact_string]

theorem depth_toValue_le {p : Plan} {room : ℕ} (h : ∀ e ∈ p.effects, e.toValue.depth ≤ room) :
    p.toValue.depth ≤ room + 2 := by
  have heffects : (Value.array (p.effects.map Effect.toValue)).depth ≤ room + 1 := by
    rw [Value.depth, Nat.succ_le_succ_iff, Value.itemsDepth_le_iff]
    intro v hv
    obtain ⟨e, he, rfl⟩ := List.mem_map.1 hv
    exact h e he
  rw [toValue, Value.depth, Nat.succ_le_succ_iff, Value.membersDepth_le_iff,
    List.forall_mem_append]
  refine ⟨List.forall_mem_cons.2 ⟨by simp [Value.depth], List.forall_mem_singleton.2 heffects⟩, ?_⟩
  rcases p.explanation <;> simp [optionalMember, Value.depth]

/-- A plan whose effects can all be recorded is sound, and can be written as a text. -/
theorem sound_of_plain {p : Plan} (h : ∀ e ∈ p.effects, e.Plain) :
    (∀ e ∈ p.effects, e.Canonical) ∧ p.toValue.depth ≤ Outline.maxDepth := by
  refine ⟨fun e he => ?_, depth_toValue_le fun e he => Effect.depth_toValue_le fun m hm => ?_⟩
  · have hp := h e he
    cases e with
    | mintNft => exact hp.canonical
    | log | addWatermark | highlightText | lockPages | runPayment | unknown => trivial
  · have hp := h e he
    subst hm
    exact hp.depth_le

theorem restores {p : Plan} (h : ∀ e ∈ p.effects, e.Canonical) {room : ℕ}
    (hd : p.toValue.depth ≤ room + 1) : format.Restores (room + 1) p := by
  have he := exact_toValue h
  have hf := Outline.fields?_outline he hd (pick_toValue p)
  have hread : read? (room + 1) p.toValue.outline = some p :=
    read?_of_fields hf rfl (required_some (effects?_map_toValue h))
      (optional_map .string (fun s => rfl) (by rintro s ⟨⟩) p.explanation)
  exact ⟨he, hread⟩

theorem regular :
    format.Regular Outline.maxDepth (∀ e ∈ ·.effects, e.Canonical) (∀ e ∈ ·.effects, e.Exact) where
  restores _ h hd := restores h hd
  sound _ _ h he := sound_of_plain (plain_of_read? h he)
  exact _ _ h ho := exact_of_read? h ho

end Plan

namespace Command

/-- The plan that is printed for a script is read as the plan that the script was interpreted
as. -/
theorem decodeOne?_plan {content : Except FileError ByteArray} {source : Source} {script : String}
    (h : source.load content = .ok script) (d : Desk) :
    Plan.format.decodeOne? ((Command.plan source).perform content d).1.output.toUTF8 =
      some (Script.interpret [] d.now script) := by
  let plan := Script.interpret [] d.now script
  have hprint : ((Command.plan source).perform content d).1.output =
      String.ofList (plan.toValue.chars (.indented 0) ++ ['\n']) := by
    have hreply : ((Command.plan source).perform content d).1 =
        .succeed (plan.toValue.indented ++ "\n") := by
      rw [perform, h]
      rfl
    rw [hreply, String.ofList_append]
    simp [Reply.output, Reply.succeed, Shown.string, Value.indented]
  have hplain : ∀ e ∈ plan.effects, e.Plain :=
    Script.plain_interpret (List.forall_mem_nil _) d.now script
  obtain ⟨hsound, hd⟩ := Plan.sound_of_plain hplain
  obtain ⟨he, hread⟩ := Plan.restores hsound hd
  have he : plan.toValue.Exact := he
  rw [hprint, Format.decodeOne?, Value.ofBytes?_line he, Option.bind_eq_bind, Option.bind_some]
  exact hread

end Command

/-- What is written of effects, plans, events and sessions is read back, whatever the layout.  A
printed plan is, and so is what was read of a text before. -/
theorem reading_undoes_writing :
    Faithful Effect.toValue Effect.format.decodeOne? Effect.Canonical Effect.Exact ∧
      Faithful Plan.toValue Plan.format.decodeOne? (∀ e ∈ ·.effects, e.Canonical)
        (∀ e ∈ ·.effects, e.Exact) ∧
      Faithful (fun events => .array (events.map Event.toValue)) Event.format.decode?
        (∀ e ∈ ·, e.payload.Canonical) (∀ e ∈ ·, e.payload.Exact) ∧
      Faithful (fun sessions => .array (sessions.map Session.toValue)) Session.format.decode?
        (∀ s ∈ ·, ∀ m ∈ s.metadata, (Value.object m).Canonical)
        (∀ s ∈ ·, ∀ m ∈ s.metadata, (Value.object m).Exact) ∧
      ∀ (content : Except FileError ByteArray) (source : Source) (script : String),
        source.load content = .ok script → ∀ d : Desk,
          Plan.format.decodeOne? ((Command.plan source).perform content d).1.output.toUTF8 =
            some (Script.interpret [] d.now script) := by
  refine ⟨(Effect.regular 125).one, Plan.regular.one, (Event.regular 125).list,
    (Session.regular 125).list, ?_⟩
  exact fun content source script h d => Command.decodeOne?_plan h d

/-- An unknown effect by the name of a known one, and a script that mints at the last instant. -/
theorem reading_undoes_writing_known_name :
    Effect.format.decodeOne? "\x7b\n  \"op\": \"log\"\n\x7d".toUTF8 = some (.unknown "log") ∧
      ∀ d : Desk, d.now = Int64.maxValue → Plan.format.decodeOne?
        ((Command.plan (.preset "ai-qa")).perform (.error .notFound) d).1.output.toUTF8 =
          some (Script.interpret [] Int64.maxValue Script.Preset.all[3].code) := by
  obtain ⟨heffect, -, -, -, hplan⟩ := reading_undoes_writing
  refine ⟨heffect.restores (.unknown "log") trivial (by decide) (.indented 0), fun d hd => ?_⟩
  have hload : (Source.preset "ai-qa").load (.error .notFound) =
      .ok Script.Preset.all[3].code := rfl
  exact hd ▸ hplan _ _ _ hload d

end PageScript
