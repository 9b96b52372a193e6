import PageScript.Event
import PageScript.Proofs.Json.Restored
import PageScript.Session

/-!
# Events and sessions read back

An event is restored when its payload is plain, a session when its metadata is
(`Event.restores`, `Session.restores`).  What is read of either is plain but for its numbers
(`Event.plain_of_read?`, `Session.plain_of_read?`).
-/

namespace PageScript

open Json

deriving instance DecidableEq for Event

deriving instance DecidableEq for Session

namespace Json

theorem required_some {α : Type} {read : Value → Option α} {v : Value} {a : α}
    (h : read v = some a) : required read (some v) = some a := h

end Json

namespace Json.Value

theorem int?_nat (n : ℕ) : (nat n).int? = some (n : ℤ) := rfl

theorem int?_int (n : ℤ) : (int n).int? = some n := rfl

theorem uint32?_nat (n : UInt32) : (nat n.toNat).uint32? = some n := by
  have h : 0 ≤ (n.toNat : ℤ) ∧ (n.toNat : ℤ) < 4294967296 := by
    have := n.toNat_lt
    omega
  rw [uint32?, int?_nat, Option.bind_eq_bind, Option.bind_some, if_pos h, Int.toNat_natCast,
    UInt32.ofNat_toNat]

theorem uint64?_nat (n : UInt64) : (nat n.toNat).uint64? = some n := by
  have h : 0 ≤ (n.toNat : ℤ) ∧ (n.toNat : ℤ) < 18446744073709551616 := by
    have := n.toNat_lt
    omega
  rw [uint64?, int?_nat, Option.bind_eq_bind, Option.bind_some, if_pos h, Int.toNat_natCast,
    UInt64.ofNat_toNat]

theorem int64?_int (n : Int64) : (int n.toInt).int64? = some n := by
  have h : -9223372036854775808 ≤ n.toInt ∧ n.toInt < 9223372036854775808 :=
    ⟨n.le_toInt, n.toInt_lt⟩
  rw [int64?, int?_int, Option.bind_eq_bind, Option.bind_some, if_pos h, Int64.ofInt_toInt]

theorem exact_uint32 (n : UInt32) : (nat n.toNat).Exact := by
  have h := n.toNat_lt
  simp only [nat, Exact, Number.Exact, Number.least, Number.greatest]
  omega

theorem exact_uint64 (n : UInt64) : (nat n.toNat).Exact := by
  have h := n.toNat_lt
  simp only [nat, Exact, Number.Exact, Number.least, Number.greatest]
  omega

theorem exact_int64 (n : Int64) : (int n.toInt).Exact := by
  have h := n.toInt_lt
  have h' := n.le_toInt
  simp only [int, Exact, Number.Exact, Number.least, Number.greatest]
  omega

/-- The members of an object are those of the object in order. -/
theorem sorted_of_members? {v : Value} {m : Members} (h : v.members? = some m) :
    v.sorted = object m := by
  cases v with
  | object members =>
    simp only [members?, Option.some.injEq] at h
    rw [sorted, h]
  | null | bool | number | string | array => simp [members?] at h

theorem plain_of_members? {room : ℕ} {v : Value} {m : Members} (h : v.members? = some m)
    (he : (object m).Exact) (hd : v.depth ≤ room) : (object m).Plain room := by
  have hs := sorted_of_members? h
  exact ⟨hs ▸ sorted_sorted v, he, hs ▸ (depth_sorted_le v).trans hd⟩

theorem exact_of_members? {v : Value} {m : Members} (h : v.members? = some m) (he : v.Exact) :
    (object m).Exact :=
  sorted_of_members? h ▸ exact_sorted he

theorem plain_uint32 (room : ℕ) (n : UInt32) : (nat n.toNat).Plain room :=
  ⟨rfl, exact_uint32 n, Nat.zero_le _⟩

theorem plain_int64 (room : ℕ) (n : Int64) : (int n.toInt).Plain room :=
  ⟨rfl, exact_int64 n, Nat.zero_le _⟩

theorem exact_string (s : String) : (string s).Exact := by
  simp [Exact]

end Json.Value

namespace Event

def Plain (room : ℕ) (e : Event) : Prop := e.payload.Plain room

theorem exact_toValue {e : Event} (h : e.payload.Exact) : e.toValue.Exact := by
  simp only [toValue, Value.Exact, Value.MembersExact, h, true_and, and_true]
  exact Value.exact_int64 e.timestamp

/-- An event is read once each of its fields is. -/
theorem read?_of_fields {room : ℕ} {o : Outline} {e : Event}
    {id kind payload timestamp : Option Value}
    (h : o.fields? ["id", "type", "payload", "timestamp"] room =
      some [id, kind, payload, timestamp])
    (hid : required Value.string? id = some e.id)
    (hkind : required Value.string? kind = some e.kind)
    (hpayload : payload.map Value.sorted = some e.payload)
    (htime : required Value.int64? timestamp = some e.timestamp) : read? room o = some e := by
  simp [read?, h, hid, hkind, hpayload, htime]

/-- The fields that an event is written with. -/
theorem pick_toValue (e : Event) :
    pick ["id", "type", "payload", "timestamp"]
      [("id", .string e.id), ("type", .string e.kind), ("payload", e.payload),
        ("timestamp", .int e.timestamp.toInt)] =
      some [some (.string e.id), some (.string e.kind), some e.payload,
        some (.int e.timestamp.toInt)] := by
  simp [pick, pickOne]

theorem restores {room : ℕ} {e : Event} (h : e.Plain room) : format.Restores (room + 1) e := by
  have he := exact_toValue h.exact
  have hd : e.toValue.depth ≤ room + 1 := by
    simp [toValue, Value.depth, Value.membersDepth, Value.int, h.depth_le]
  have hs : (some e.payload).map Value.sorted = some e.payload := by
    rw [Option.map_some, h.sorted_eq]
  have hf := Outline.fields?_outline he hd (pick_toValue e)
  have hread : read? (room + 1) e.toValue.outline = some e :=
    read?_of_fields hf rfl rfl hs (required_some (Value.int64?_int _))
  exact ⟨he, hread⟩

/-- The free-form part of an event is read as one of its fields. -/
theorem payload_of_read? {room : ℕ} {o : Outline} {e : Event}
    (h : format.read? (room + 1) o = some e) :
    ∃ p ∈ o.parts, ∃ v, p.value? room = some v ∧ e.payload = v.sorted := by
  simp only [format, read?, Option.bind_eq_bind, Option.bind_eq_some_iff] at h
  obtain ⟨fs, hfs, h⟩ := h
  split at h
  · rename_i id kind payload timestamp
    simp only [Option.bind_eq_some_iff, Option.pure_def, Option.some.injEq,
      Option.map_eq_some_iff] at h
    obtain ⟨_, -, _, -, _, ⟨v, rfl, rfl⟩, _, -, rfl⟩ := h
    obtain ⟨p, hp, hv⟩ := Outline.exists_of_fields? hfs (v := v) (by simp)
    exact ⟨p, hp, v, hv, rfl⟩
  · cases h

theorem plain_of_read? {room : ℕ} {o : Outline} {e : Event}
    (h : format.read? (room + 1) o = some e) (he : e.payload.Exact) : e.Plain room := by
  obtain ⟨p, -, v, hv, hpayload⟩ := payload_of_read? h
  have hd := Outline.depth_le_of_value? p hv
  exact ⟨by rw [hpayload, Value.sorted_sorted], he,
    hpayload ▸ (Value.depth_sorted_le v).trans hd⟩

theorem exact_of_read? {room : ℕ} {o : Outline} {e : Event}
    (h : format.read? (room + 1) o = some e) (ho : o.Exact) : e.payload.Exact := by
  obtain ⟨p, hp, v, hv, hpayload⟩ := payload_of_read? h
  rw [hpayload]
  exact Value.exact_sorted (Outline.exact_of_value? p hv (Outline.exact_of_mem_parts hp ho))

end Event

namespace Session

def Plain (room : ℕ) (s : Session) : Prop :=
  ∀ m ∈ s.metadata, (Value.object m).Plain room

theorem Plain.withStatus {room : ℕ} {s : Session} (h : s.Plain room) (status : Status) :
    Plain room { s with status } := h

theorem exact_toValue {s : Session} (h : ∀ m ∈ s.metadata, (Value.object m).Exact) :
    s.toValue.Exact := by
  rw [toValue, Value.Exact, Value.membersExact_iff, List.forall_mem_append]
  refine ⟨by simp [Value.exact_uint64, Value.exact_int64, Value.exact_string], ?_⟩
  rcases hm : s.metadata with _ | m
  · simp [optionalMember]
  · simpa [optionalMember] using h m hm

theorem depth_toValue_le {room : ℕ} {s : Session}
    (h : ∀ m ∈ s.metadata, (Value.object m).depth ≤ room) : s.toValue.depth ≤ room + 1 := by
  rw [toValue, Value.depth, Nat.succ_le_succ_iff, Value.membersDepth_le_iff,
    List.forall_mem_append]
  refine ⟨by simp [Value.nat, Value.int, Value.depth], ?_⟩
  rcases hm : s.metadata with _ | m
  · simp [optionalMember]
  · simpa [optionalMember] using h m hm

theorem plain_payload {room : ℕ} {s : Session} (h : s.Plain room) :
    s.payload.Plain (room + 1) :=
  Value.plain_sorted (exact_toValue fun m hm => (h m hm).exact)
    (depth_toValue_le fun m hm => (h m hm).depth_le)

/-- The payload of a pending session, its members written out. -/
theorem payload_of_pending {s : Session} {metadata : Members} (hp : s.status = .pending)
    (hm : s.metadata = some metadata) (hs : (Value.object metadata).sorted = .object metadata) :
    s.payload = .object [("amountCents", .nat s.amountCents.toNat),
      ("createdAt", .int s.createdAt.toInt), ("currency", .string s.currency),
      ("id", .string s.id), ("metadata", .object metadata), ("status", .string "pending")] := by
  rw [payload, toValue, hp, hm, Value.sorted]
  simp +decide only [optionalMember, List.cons_append, List.nil_append, Value.sortedMembers, hs,
    Members.ofList, Members.insert, List.foldl_cons, List.foldl_nil, if_true, if_false]
  rfl

theorem ofValue?_name (s : Status) : Status.ofValue? (.string s.name) = some s := by
  cases s <;> rfl

/-- A session is read once each of its fields is. -/
theorem read?_of_fields {room : ℕ} {o : Outline} {s : Session}
    {id amountCents currency status createdAt metadata : Option Value}
    (h : o.fields? ["id", "amountCents", "currency", "status", "createdAt", "metadata"] room =
      some [id, amountCents, currency, status, createdAt, metadata])
    (hid : required Value.string? id = some s.id)
    (hamount : required Value.uint64? amountCents = some s.amountCents)
    (hcurrency : required Value.string? currency = some s.currency)
    (hstatus : required Status.ofValue? status = some s.status)
    (hcreated : required Value.int64? createdAt = some s.createdAt)
    (hmetadata : Json.optional Value.members? metadata = some s.metadata) :
    read? room o = some s := by
  simp [read?, h, hid, hamount, hcurrency, hstatus, hcreated, hmetadata]

/-- The fields that a session is written with. -/
theorem pick_toValue (s : Session) :
    pick ["id", "amountCents", "currency", "status", "createdAt", "metadata"]
      ([("id", Value.string s.id), ("amountCents", Value.nat s.amountCents.toNat),
        ("currency", Value.string s.currency), ("status", Value.string s.status.name),
        ("createdAt", Value.int s.createdAt.toInt)] ++
        optionalMember "metadata" Value.object s.metadata) =
      some [some (.string s.id), some (.nat s.amountCents.toNat), some (.string s.currency),
        some (.string s.status.name), some (.int s.createdAt.toInt),
        s.metadata.map .object] := by
  rcases s.metadata with _ | m <;> simp [pick, pickOne, optionalMember]

theorem restores {room : ℕ} {s : Session} (h : s.Plain room) :
    format.Restores (room + 1) s := by
  have he := exact_toValue fun m hm => (h m hm).exact
  have hd := depth_toValue_le fun m hm => (h m hm).depth_le
  have hm : Json.optional Value.members? (s.metadata.map .object) = some s.metadata := by
    rcases hm : s.metadata with _ | m
    · rfl
    · have hs : Value.object (Members.ofList (Value.sortedMembers m)) = .object m :=
        (h m hm).sorted_eq
      simpa [Json.optional, Value.members?] using hs
  have hf := Outline.fields?_outline he hd (pick_toValue s)
  have hread : read? (room + 1) s.toValue.outline = some s :=
    read?_of_fields hf rfl (required_some (Value.uint64?_nat _)) rfl
      (required_some (ofValue?_name _)) (required_some (Value.int64?_int _)) hm
  exact ⟨he, hread⟩

/-- The free-form part of a session is read as one of its fields. -/
theorem metadata_of_read? {room : ℕ} {o : Outline} {s : Session}
    (h : format.read? (room + 1) o = some s) {m : Members} (hm : m ∈ s.metadata) :
    ∃ p ∈ o.parts, ∃ v, p.value? room = some v ∧ v.members? = some m := by
  simp only [format, read?, Option.bind_eq_bind, Option.bind_eq_some_iff] at h
  obtain ⟨fs, hfs, h⟩ := h
  split at h
  · rename_i id amountCents currency status createdAt metadata
    simp only [Option.bind_eq_some_iff, Option.pure_def, Option.some.injEq] at h
    obtain ⟨_, -, _, -, _, -, _, -, _, -, meta?, hmeta, rfl⟩ := h
    obtain rfl : meta? = some m := hm
    have hv : ∃ v, metadata = some v ∧ v.members? = some m := by
      unfold Json.optional at hmeta
      split at hmeta
      · cases hmeta
      · cases hmeta
      · rename_i v _
        exact ⟨v, rfl, by simpa using hmeta⟩
    obtain ⟨v, rfl, hv⟩ := hv
    obtain ⟨p, hp, hpv⟩ := Outline.exists_of_fields? hfs (v := v) (by simp)
    exact ⟨p, hp, v, hpv, hv⟩
  · cases h

theorem plain_of_read? {room : ℕ} {o : Outline} {s : Session}
    (h : format.read? (room + 1) o = some s)
    (he : ∀ m ∈ s.metadata, (Value.object m).Exact) : s.Plain room := by
  intro m hm
  obtain ⟨p, -, v, hpv, hv⟩ := metadata_of_read? h hm
  exact Value.plain_of_members? hv (he m hm) (Outline.depth_le_of_value? p hpv)

theorem exact_of_read? {room : ℕ} {o : Outline} {s : Session}
    (h : format.read? (room + 1) o = some s) (ho : o.Exact) :
    ∀ m ∈ s.metadata, (Value.object m).Exact := by
  intro m hm
  obtain ⟨p, hp, v, hpv, hv⟩ := metadata_of_read? h hm
  have hexact := Outline.exact_of_value? p hpv (Outline.exact_of_mem_parts hp ho)
  exact Value.exact_of_members? hv hexact

end Session

end PageScript
