import PageScript.Plan
import PageScript.Proofs.Records

/-!
# Plans that were read

The only free-form part of a plan is the metadata it has minted.  What is read of a plan leaves
room for that metadata in an event (`Plan.plain_effects`).
-/

namespace PageScript

open Json

namespace Json.Value

/-- What stands right inside a value. -/
def parts : Value → List Value
  | .array items => items
  | .object members => members.map Prod.snd
  | _ => []

theorem depth_le_of_mem_parts {v u : Value} (hu : u ∈ v.parts) {room : ℕ}
    (hd : v.depth ≤ room + 1) : u.depth ≤ room := by
  cases v with
  | array items =>
    rw [depth, Nat.succ_le_succ_iff, itemsDepth_le_iff] at hd
    exact hd u hu
  | object members =>
    rw [depth, Nat.succ_le_succ_iff, membersDepth_le_iff] at hd
    obtain ⟨m, hm, rfl⟩ := List.mem_map.1 hu
    exact hd m hm
  | null | bool | number | string => cases hu

theorem exact_of_mem_parts {v u : Value} (hu : u ∈ v.parts) (he : v.Exact) : u.Exact := by
  cases v with
  | array items => exact itemsExact_iff.1 he u hu
  | object members =>
    obtain ⟨m, hm, rfl⟩ := List.mem_map.1 hu
    exact membersExact_iff.1 he m hm
  | null | bool | number | string => cases hu

theorem mem_parts_of_fields? {names : List String} {v : Value} {fs : List (Option Value)}
    (h : v.fields? names = some fs) {u : Value} (hu : some u ∈ fs) : u ∈ v.parts := by
  cases v with
  | object members =>
    obtain ⟨name, -, hm⟩ := mem_of_mem_pick h hu
    exact List.mem_map_of_mem (f := Prod.snd) hm
  | array items => exact mem_of_mem_place h hu
  | null | bool | number | string => simp [fields?] at h

end Json.Value

namespace Effect

/-- Whether the metadata to be minted has only numbers that are kept exactly. -/
def Exact : Effect → Prop
  | .mintNft metadata => (Value.object metadata).Exact
  | _ => True

def Plain : Effect → Prop
  | .mintNft metadata => (Value.object metadata).Plain 124
  | _ => True

/-- Only the fields of a `mintNFT` make an effect with metadata. -/
theorem metadata_of_ofFields? {kind : String} {v : Value} {metadata : Members}
    (h : ofFields? kind v = some (.mintNft metadata)) :
    ∃ u, v.fields? ["metadata"] = some [some u] ∧ u.members? = some metadata := by
  unfold ofFields? at h
  split at h
  case h_7 => cases h
  case h_5 =>
    simp only [Option.bind_eq_bind, Option.bind_eq_some_iff] at h
    obtain ⟨fs, hfs, h⟩ := h
    split at h
    · rename_i field
      simp only [required, Option.bind_eq_some_iff, Option.pure_def, Option.some.injEq] at h
      obtain ⟨m, ⟨u, rfl, hu⟩, h⟩ := h
      cases h
      exact ⟨u, hfs, hu⟩
    · cases h
  all_goals
    simp only [Option.bind_eq_bind, Option.bind_eq_some_iff] at h
    obtain ⟨fs, -, h⟩ := h
    split at h <;> simp [Option.bind_eq_some_iff] at h

theorem metadata_of_ofKind? {op rest : Value} {metadata : Members}
    (h : ofKind? op rest = some (.mintNft metadata)) :
    ∃ u ∈ rest.parts, u.members? = some metadata := by
  simp only [ofKind?, Option.bind_eq_bind, Option.bind_eq_some_iff] at h
  obtain ⟨kind, -, h⟩ := h
  obtain ⟨u, hu, hm⟩ := metadata_of_ofFields? h
  exact ⟨u, Value.mem_parts_of_fields? hu List.mem_cons_self, hm⟩

/-- The metadata that were read are the members of a part of the value they were read of. -/
theorem metadata_of_ofValue? {v : Value} {metadata : Members}
    (h : ofValue? v = some (.mintNft metadata)) : ∃ u ∈ v.parts, u.members? = some metadata := by
  unfold ofValue? at h
  split at h
  · rename_i members
    split at h
    · split at h
      · rename_i heq
        cases h
        obtain ⟨u, hu, hm⟩ := metadata_of_ofKind? heq
        obtain ⟨m, hmem, rfl⟩ := List.mem_map.1 hu
        exact ⟨m.2, List.mem_map_of_mem (List.mem_filter.1 hmem).1, hm⟩
      · simp only [Option.map_eq_some_iff, reduceCtorEq, and_false, exists_false] at h
    · cases h
  · rename_i op items
    obtain ⟨u, hu, hm⟩ := metadata_of_ofKind? h
    exact ⟨u, List.mem_cons_of_mem op hu, hm⟩
  · cases h

/-- What is read of an effect leaves room for its metadata in an event. -/
theorem plain_of_ofValue? {v : Value} {e : Effect} (h : ofValue? v = some e)
    (hd : v.depth ≤ 125) (he : e.Exact) : e.Plain := by
  cases e with
  | mintNft metadata =>
    obtain ⟨u, hu, hm⟩ := metadata_of_ofValue? h
    exact Value.plain_of_members? hm he (Value.depth_le_of_mem_parts hu hd)
  | log | addWatermark | highlightText | lockPages | runPayment | unknown => trivial

theorem exact_of_ofValue? {v : Value} {e : Effect} (h : ofValue? v = some e) (he : v.Exact) :
    e.Exact := by
  cases e with
  | mintNft metadata =>
    obtain ⟨u, hu, hm⟩ := metadata_of_ofValue? h
    exact Value.exact_of_members? hm (Value.exact_of_mem_parts hu he)
  | log | addWatermark | highlightText | lockPages | runPayment | unknown => trivial

end Effect

namespace Plan

theorem mem_of_effects? {v : Value} {effects : List Effect} (h : effects? v = some effects)
    {e : Effect} (he : e ∈ effects) : ∃ u ∈ v.parts, Effect.ofValue? u = some e := by
  simp only [effects?, Option.bind_eq_bind, Option.bind_eq_some_iff] at h
  obtain ⟨items, hitems, h⟩ := h
  obtain ⟨u, hu, heq⟩ := exists_of_mem_mapM h he
  cases v with
  | array items' =>
    cases hitems
    exact ⟨u, hu, heq⟩
  | null | bool | number | string | object => simp [Value.array?] at hitems

/-- The effects of a plan are read as the parts of one of its fields. -/
theorem effect_of_read? {room : ℕ} {o : Outline} {plan : Plan}
    (h : format.read? (room + 1) o = some plan) {e : Effect} (he : e ∈ plan.effects) :
    ∃ p ∈ o.parts, ∃ v, p.value? room = some v ∧ ∃ u ∈ v.parts, Effect.ofValue? u = some e := by
  simp only [format, read?, Option.bind_eq_bind, Option.bind_eq_some_iff] at h
  obtain ⟨fs, hfs, h⟩ := h
  split at h
  · rename_i success effects explanation
    simp only [required, Option.bind_eq_some_iff, Option.pure_def, Option.some.injEq] at h
    obtain ⟨_, -, es, ⟨v, rfl, hes⟩, _, -, rfl⟩ := h
    obtain ⟨p, hp, hv⟩ := Outline.exists_of_fields? hfs (v := v) (by simp)
    exact ⟨p, hp, v, hv, mem_of_effects? hes he⟩
  · cases h

theorem plain_of_read? {o : Outline} {plan : Plan}
    (h : format.read? Outline.maxDepth o = some plan) (he : ∀ e ∈ plan.effects, e.Exact) :
    ∀ e ∈ plan.effects, e.Plain := by
  intro e hmem
  obtain ⟨p, -, v, hv, u, hu, heffect⟩ := effect_of_read? h hmem
  have hd := Value.depth_le_of_mem_parts hu (Outline.depth_le_of_value? p hv)
  exact Effect.plain_of_ofValue? heffect hd (he e hmem)

theorem exact_of_read? {room : ℕ} {o : Outline} {plan : Plan}
    (h : format.read? (room + 1) o = some plan) (ho : o.Exact) :
    ∀ e ∈ plan.effects, e.Exact := by
  intro e hmem
  obtain ⟨p, hp, v, hv, u, hu, heffect⟩ := effect_of_read? h hmem
  have hexact := Outline.exact_of_value? p hv (Outline.exact_of_mem_parts hp ho)
  exact Effect.exact_of_ofValue? heffect (Value.exact_of_mem_parts hu hexact)

/-- The effects of a plan that was read from text can all be recorded. -/
theorem plain_effects {bytes : ByteArray} {plan : Plan}
    (h : format.decodeOne? bytes = some plan) (he : ∀ e ∈ plan.effects, e.Exact) :
    ∀ e ∈ plan.effects, e.Plain := by
  simp only [Format.decodeOne?, Option.bind_eq_bind, Option.bind_eq_some_iff] at h
  obtain ⟨o, -, h⟩ := h
  exact plain_of_read? h he

end Plan

end PageScript
