import PageScript.Proofs.Reread

/-!
# What an effect may look like

`Effect.Reads` is the grammar of effects.  An object is read as an effect of the kind its `op` names
when each field of that kind fits, and else as the unknown effect of that `op`; an array is read
only as an effect of a known kind, with the fields in order after the `op`.  The reader follows the
grammar (`Effect.read_by_grammar`).

An `op` need not be a text: a known kind is also meant by the number of its place among the kinds
(`Effect.read_by_place`).
-/

namespace PageScript

open Json

namespace Json

/-- The only member of a name in an object, `none` if there is no such member. -/
inductive Sole (members : List (String × Value)) (name : String) : Option Value → Prop
  | absent (h : ∀ m ∈ members, m.1 ≠ name) : Sole members name none
  | present {before after : List (String × Value)} {v : Value}
    (h : members = before ++ (name, v) :: after) (hbefore : ∀ m ∈ before, m.1 ≠ name)
    (hafter : ∀ m ∈ after, m.1 ≠ name) : Sole members name (some v)

/-- What is given for a field that may be absent or null. -/
inductive Given {α : Type} (write : α → Value) : Option Value → Option α → Prop
  | absent : Given write none none
  | null : Given write (some .null) none
  | value (a : α) : Given write (some (write a)) (some a)

theorem filter_eq_nil_of_ne {α : Type} {members : List (String × α)} {name : String}
    (h : ∀ m ∈ members, m.1 ≠ name) : members.filter (·.1 = name) = [] :=
  List.filter_eq_nil_iff.2 fun m hm => by simp [h m hm]

theorem pickOne_eq_some_iff {members : List (String × Value)} {name : String}
    {field : Option Value} : pickOne members name = some field ↔ Sole members name field := by
  constructor
  · intro h
    unfold pickOne at h
    split at h
    · rename_i hfilter
      cases h
      exact .absent fun m hm => by simpa using List.filter_eq_nil_iff.1 hfilter m hm
    · rename_i k v hfilter
      cases h
      obtain ⟨before, after, rfl, hbefore, hk, hafter⟩ := List.filter_eq_cons_iff.1 hfilter
      obtain rfl : k = name := by simpa using hk
      refine .present rfl (fun m hm => by simpa using hbefore m hm) fun m hm => ?_
      simpa using List.filter_eq_nil_iff.1 hafter m hm
    · cases h
  · intro h
    cases h with
    | absent h => rw [pickOne, filter_eq_nil_of_ne h]
    | present h hbefore hafter =>
      rw [pickOne, h, List.filter_append, filter_eq_nil_of_ne hbefore,
        List.filter_cons_of_pos (by simp), filter_eq_nil_of_ne hafter]
      rfl

theorem pick_eq_some_iff {members : List (String × Value)} {names : List String}
    {fields : List (Option Value)} :
    pick names members = some fields ↔ List.Forall₂ (Sole members) names fields := by
  unfold pick
  induction names generalizing fields with
  | nil => cases fields <;> simp
  | cons name names ih =>
    simp only [List.mapM_cons, Option.bind_eq_bind, Option.bind_eq_some_iff, Option.pure_def,
      Option.some.injEq, pickOne_eq_some_iff, ih]
    constructor
    · rintro ⟨field, hfield, rest, hrest, rfl⟩
      exact .cons hfield hrest
    · rintro (_ | ⟨hfield, hrest⟩)
      exact ⟨_, hfield, _, hrest, rfl⟩

/-- Members of another name make no difference. -/
theorem pick_filter {members : List (String × Value)} {names : List String} {other : String}
    (h : other ∉ names) : pick names (members.filter (·.1 ≠ other)) = pick names members := by
  unfold pick
  induction names with
  | nil => rfl
  | cons name names ih =>
    obtain ⟨hname, hnames⟩ := List.ne_and_not_mem_of_not_mem_cons h
    have hone : pickOne (members.filter (·.1 ≠ other)) name = pickOne members name := by
      have hfilter : (members.filter (·.1 ≠ other)).filter (·.1 = name) =
          members.filter (·.1 = name) := by
        rw [List.filter_filter]
        refine List.filter_congr fun m _ => ?_
        by_cases hm : m.1 = name <;> simp [hm, hname.symm]
      rw [pickOne, pickOne, hfilter]
    rw [List.mapM_cons, List.mapM_cons, hone, ih hnames]

theorem place_eq_some_iff {names : List String} {items : List Value}
    {fields : List (Option Value)} :
    place names items = some fields ↔ fields.length = names.length ∧
      ∃ n, fields = items.map some ++ List.replicate n none := by
  rw [place]
  split_ifs with h
  · rw [Option.some.injEq]
    constructor
    · rintro rfl
      exact ⟨by simp; omega, _, rfl⟩
    · rintro ⟨hlength, n, rfl⟩
      simp only [List.length_append, List.length_map, List.length_replicate] at hlength
      rw [← hlength, Nat.add_sub_cancel_left]
  · simp only [false_iff, not_and, not_exists]
    rintro hlength n rfl
    simp at hlength
    omega

section Fields

variable {α : Type} {read : Value → Option α} {write : α → Value} {field : Option Value}

theorem required_eq_some_iff (hread : ∀ v a, read v = some a ↔ v = write a) {a : α} :
    required read field = some a ↔ field = some (write a) := by
  simp [required, Option.bind_eq_some_iff, hread]

theorem optional_eq_some_iff (hread : ∀ v a, read v = some a ↔ v = write a)
    (hnull : ∀ a, write a ≠ .null) {a : Option α} :
    optional read field = some a ↔ Given write field a := by
  constructor
  · intro h
    unfold optional at h
    split at h
    · cases h
      exact .absent
    · cases h
      exact .null
    · obtain ⟨b, hb, rfl⟩ := Option.map_eq_some_iff.1 h
      rw [(hread _ _).1 hb]
      exact .value b
  · intro h
    cases h with
    | absent | null => rfl
    | value a =>
      have hwrite : read (write a) = some a := (hread _ _).2 rfl
      unfold optional
      split
      · rename_i heq
        cases heq
      · rename_i heq
        exact absurd (Option.some.inj heq) (hnull a)
      · rename_i heq
        obtain rfl := Option.some.inj heq
        rw [hwrite]
        rfl

end Fields

namespace Value

theorem string?_eq_some_iff (v : Value) (s : String) : v.string? = some s ↔ v = .string s := by
  cases v <;> simp [string?]

theorem int?_eq_some_iff (v : Value) (n : ℤ) : v.int? = some n ↔ v = .int n := by
  rcases v with _ | _ | (n | x) | _ | _ | _ <;> simp [int?, int]

theorem uint32?_eq_some_iff (v : Value) (n : UInt32) : v.uint32? = some n ↔ v = .nat n.toNat := by
  constructor
  · intro h
    simp only [uint32?, Option.bind_eq_bind, Option.bind_eq_some_iff] at h
    obtain ⟨i, hi, h⟩ := h
    split_ifs at h with hrange
    obtain rfl := Option.some.inj h
    have hlt : i.toNat < UInt32.size := by
      change _ < 4294967296
      omega
    rw [(int?_eq_some_iff v i).1 hi, UInt32.toNat_ofNat_of_lt' hlt, nat]
    congr
    omega
  · rintro rfl
    exact uint32?_nat n

theorem uint64?_eq_some_iff (v : Value) (n : UInt64) : v.uint64? = some n ↔ v = .nat n.toNat := by
  constructor
  · intro h
    simp only [uint64?, Option.bind_eq_bind, Option.bind_eq_some_iff] at h
    obtain ⟨i, hi, h⟩ := h
    split_ifs at h with hrange
    obtain rfl := Option.some.inj h
    rw [(int?_eq_some_iff v i).1 hi,
      UInt64.toNat_ofNat_of_lt' (by change _ < 18446744073709551616; omega), nat]
    congr
    omega
  · rintro rfl
    exact uint64?_nat n

end Value

end Json

namespace Effect

/-! ### The grammar -/

/-- The fields of a kind, in order. -/
def fieldNames : String → List String
  | "log" => ["message"]
  | "addWatermark" => ["page", "text"]
  | "highlightText" => ["text"]
  | "lockPages" => ["pages", "priceCents"]
  | "mintNFT" => ["metadata"]
  | "runPayment" => ["priceCents", "reason"]
  | _ => []

/-- The fields of a kind, each of which fits, and the effect they make. -/
inductive Fits : String → List (Option Value) → Effect → Prop
  | log (message : String) : Fits "log" [some (.string message)] (.log message)
  | addWatermark (page : UInt32) (text : String) :
    Fits "addWatermark" [some (.nat page.toNat), some (.string text)] (.addWatermark page text)
  | highlightText (text : String) :
    Fits "highlightText" [some (.string text)] (.highlightText text)
  | lockPages (pages : List UInt32) {field : Option Value} {price : Option UInt64}
    (hprice : Given (fun c : UInt64 => .nat c.toNat) field price) :
    Fits "lockPages" [some (pagesValue pages), field] (.lockPages pages price)
  | mintNft (members : List (String × Value)) :
    Fits "mintNFT" [some (.object members)]
      (.mintNft (Members.ofList (Value.sortedMembers members)))
  | runPayment (price : UInt64) {field : Option Value} {reason : Option String}
    (hreason : Given .string field reason) :
    Fits "runPayment" [some (.nat price.toNat), field] (.runPayment price reason)

/-- The known kind that an `op` means, by its name or by its place among the kinds. -/
inductive Means : Value → String → Prop
  | name {kind : String} (h : kind ∈ kinds) : Means (.string kind) kind
  | place {n : ℕ} {kind : String} (h : kinds[n]? = some kind) : Means (.nat n) kind

/-- The members of an object make an effect of a known kind. -/
def Makes (members : List (String × Value)) (kind : String) (e : Effect) : Prop :=
  ∃ fields, List.Forall₂ (Sole members) (fieldNames kind) fields ∧ Fits kind fields e

/-- A value is read as an effect. -/
inductive Reads : Value → Effect → Prop
  | object {members : List (String × Value)} {op : Value} {kind : String} {e : Effect}
    (hop : Sole members "op" (some op)) (hmeans : Means op kind) (hmakes : Makes members kind e) :
    Reads (.object members) e
  | unknown {members : List (String × Value)} {op : String}
    (hop : Sole members "op" (some (.string op))) (hnot : ∀ e, ¬ Makes members op e) :
    Reads (.object members) (.unknown op)
  | array {op : Value} {items : List Value} {kind : String} {n : ℕ} {e : Effect}
    (hmeans : Means op kind) (hfits : Fits kind (items.map some ++ List.replicate n none) e) :
    Reads (.array (op :: items)) e

variable {kind : String} {fields : List (Option Value)} {e : Effect}

theorem Fits.kind_eq (h : Fits kind fields e) : e.kind = kind := by
  cases h <;> rfl

theorem Fits.mem_kinds (h : Fits kind fields e) : kind ∈ kinds := by
  cases h <;> decide +kernel

theorem Fits.length_eq (h : Fits kind fields e) : fields.length = (fieldNames kind).length := by
  cases h <;> rfl

theorem op_not_mem_fieldNames (kind : String) : "op" ∉ fieldNames kind := by
  unfold fieldNames
  split <;> simp

/-! ### The reader -/

theorem pages?_eq_some_iff (v : Value) (pages : List UInt32) :
    pages? v = some pages ↔ v = pagesValue pages := by
  constructor
  · intro h
    cases v with
    | array items =>
      replace h : items.mapM Value.uint32? = some pages := h
      rw [pagesValue]
      congr
      induction items generalizing pages with
      | nil =>
        cases h
        rfl
      | cons v items ih =>
        simp only [List.mapM_cons, Option.bind_eq_bind, Option.bind_eq_some_iff, Option.pure_def,
          Option.some.injEq, Value.uint32?_eq_some_iff] at h
        obtain ⟨page, rfl, rest, hrest, rfl⟩ := h
        rw [List.map_cons, ← ih rest hrest]
    | null | bool | number | string | object => cases h
  · rintro rfl
    exact pages?_pagesValue pages

section Readers

variable {field : Option Value}

theorem required_text_iff {text : String} :
    required Value.string? field = some text ↔ field = some (.string text) :=
  required_eq_some_iff Value.string?_eq_some_iff

theorem required_page_iff {page : UInt32} :
    required Value.uint32? field = some page ↔ field = some (.nat page.toNat) :=
  required_eq_some_iff Value.uint32?_eq_some_iff

theorem required_pages_iff {pages : List UInt32} :
    required pages? field = some pages ↔ field = some (pagesValue pages) :=
  required_eq_some_iff pages?_eq_some_iff

theorem required_price_iff {price : UInt64} :
    required Value.uint64? field = some price ↔ field = some (.nat price.toNat) :=
  required_eq_some_iff Value.uint64?_eq_some_iff

theorem required_metadata_iff {metadata : Members} :
    required Value.members? field = some metadata ↔
      ∃ members, field = some (.object members) ∧
        Members.ofList (Value.sortedMembers members) = metadata := by
  rcases field with _ | v
  · simp [required]
  · cases v <;> simp [required, Value.members?]

theorem optional_price_iff {price : Option UInt64} :
    optional Value.uint64? field = some price ↔
      Given (fun c : UInt64 => .nat c.toNat) field price :=
  optional_eq_some_iff Value.uint64?_eq_some_iff fun c => by simp [Value.nat]

theorem optional_reason_iff {reason : Option String} :
    optional Value.string? field = some reason ↔ Given .string field reason :=
  optional_eq_some_iff Value.string?_eq_some_iff fun s => by simp

end Readers

/-- The fields of a kind are read when they fit it. -/
theorem ofFields?_eq_some_iff {v : Value} :
    ofFields? kind v = some e ↔
      ∃ fields, v.fields? (fieldNames kind) = some fields ∧ Fits kind fields e := by
  constructor
  · intro h
    unfold ofFields? at h
    split at h
    case h_7 => cases h
    all_goals
      obtain ⟨fields, hfields, h⟩ := Option.bind_eq_some_iff.1 h
      split at h
      case h_2 => cases h
      simp only [Option.bind_eq_bind, Option.bind_eq_some_iff, Option.pure_def, Option.some.injEq,
        required_text_iff, required_page_iff, required_pages_iff, required_price_iff,
        required_metadata_iff, optional_price_iff, optional_reason_iff] at h
    · obtain ⟨message, rfl, rfl⟩ := h
      exact ⟨_, hfields, .log message⟩
    · obtain ⟨page, rfl, text, rfl, rfl⟩ := h
      exact ⟨_, hfields, .addWatermark page text⟩
    · obtain ⟨text, rfl, rfl⟩ := h
      exact ⟨_, hfields, .highlightText text⟩
    · obtain ⟨pages, rfl, price, hprice, rfl⟩ := h
      exact ⟨_, hfields, .lockPages pages hprice⟩
    · obtain ⟨metadata, ⟨members, rfl, rfl⟩, rfl⟩ := h
      exact ⟨_, hfields, .mintNft members⟩
    · obtain ⟨price, rfl, reason, hreason, rfl⟩ := h
      exact ⟨_, hfields, .runPayment price hreason⟩
  · rintro ⟨fields, hv, hfits⟩
    cases hfits with
    | log message | highlightText text =>
      simp only [fieldNames] at hv
      simp [ofFields?, hv, required, Value.string?]
    | addWatermark page text =>
      exact ofFields?_addWatermark hv (required_page_iff.2 rfl) (required_text_iff.2 rfl)
    | lockPages pages hprice =>
      exact ofFields?_lockPages hv (required_pages_iff.2 rfl) (optional_price_iff.2 hprice)
    | mintNft members =>
      simp only [fieldNames] at hv
      simp [ofFields?, hv, required, Value.members?]
    | runPayment price hreason =>
      exact ofFields?_runPayment hv (required_price_iff.2 rfl) (optional_reason_iff.2 hreason)

theorem kindOf?_eq_some_iff {op : Value} : kindOf? op = some kind ↔ Means op kind := by
  constructor
  · intro h
    unfold kindOf? at h
    split at h
    · rename_i s
      split_ifs at h with hs
      cases h
      exact .name hs
    · rename_i n
      split_ifs at h with hn
      obtain ⟨n, rfl⟩ := Int.eq_ofNat_of_zero_le hn
      exact .place h
    · cases h
  · intro h
    cases h with
    | name h => exact if_pos h
    | place h =>
      rename_i n
      have hplace : kindOf? (.nat n) = if 0 ≤ (n : ℤ) then kinds[(n : ℤ).toNat]? else none := rfl
      rw [hplace, if_pos (Int.natCast_nonneg n), Int.toNat_natCast, h]

theorem ofKind?_eq_some_iff {op rest : Value} :
    ofKind? op rest = some e ↔ ∃ kind, Means op kind ∧
      ∃ fields, rest.fields? (fieldNames kind) = some fields ∧ Fits kind fields e := by
  simp only [ofKind?, Option.bind_eq_bind, Option.bind_eq_some_iff, kindOf?_eq_some_iff,
    ofFields?_eq_some_iff]

/-- The `op` is no field of any kind, so it makes no difference to what the others make. -/
theorem ofKind?_object_iff {op : Value} {members : List (String × Value)} :
    ofKind? op (.object (members.filter (·.1 ≠ "op"))) = some e ↔
      ∃ kind, Means op kind ∧ Makes members kind e := by
  simp only [ofKind?_eq_some_iff, Value.fields?, pick_filter (op_not_mem_fieldNames _),
    pick_eq_some_iff, Makes]

theorem ofKind?_array_iff {op : Value} {items : List Value} :
    ofKind? op (.array items) = some e ↔
      ∃ kind n, Means op kind ∧ Fits kind (items.map some ++ List.replicate n none) e := by
  simp only [ofKind?_eq_some_iff, Value.fields?, place_eq_some_iff]
  constructor
  · rintro ⟨kind, hmeans, fields, ⟨-, n, rfl⟩, hfits⟩
    exact ⟨kind, n, hmeans, hfits⟩
  · rintro ⟨kind, n, hmeans, hfits⟩
    exact ⟨kind, hmeans, _, ⟨hfits.length_eq, n, rfl⟩, hfits⟩

theorem pick_op_iff {members : List (String × Value)} {op : Value} :
    pick ["op"] members = some [some op] ↔ Sole members "op" (some op) := by
  rw [pick_eq_some_iff]
  simp

theorem means_string_iff {op : String} : Means (.string op) kind ↔ op = kind ∧ kind ∈ kinds := by
  constructor
  · rintro (h | h)
    exact ⟨rfl, h⟩
  · rintro ⟨rfl, h⟩
    exact .name h

/-- The effects that are read are those of the grammar. -/
theorem ofValue?_eq_some_iff {v : Value} : ofValue? v = some e ↔ Reads v e := by
  constructor
  · intro h
    unfold ofValue? at h
    split at h
    · rename_i members
      split at h
      · rename_i op hop
        have hop := pick_op_iff.1 hop
        split at h
        · rename_i hread
          cases h
          obtain ⟨kind, hmeans, hmakes⟩ := ofKind?_object_iff.1 hread
          exact .object hop hmeans hmakes
        · rename_i hread
          obtain ⟨s, hs, rfl⟩ := Option.map_eq_some_iff.1 h
          rw [Value.string?_eq_some_iff] at hs
          subst hs
          refine .unknown hop fun e hmakes => ?_
          obtain ⟨fields, -, hfits⟩ := id hmakes
          rw [ofKind?_object_iff.2 ⟨s, .name hfits.mem_kinds, hmakes⟩] at hread
          cases hread
      · cases h
    · obtain ⟨kind, n, hmeans, hfits⟩ := ofKind?_array_iff.1 h
      exact .array hmeans hfits
    · cases h
  · intro h
    cases h with
    | object hop hmeans hmakes =>
      rw [ofValue?, pick_op_iff.2 hop]
      dsimp only
      rw [ofKind?_object_iff.2 ⟨_, hmeans, hmakes⟩]
    | unknown hop hnot =>
      rename_i members op
      have hnone : ofKind? (.string op) (.object (members.filter (·.1 ≠ "op"))) = none := by
        by_contra hsome
        obtain ⟨e, he⟩ := Option.ne_none_iff_exists'.1 hsome
        obtain ⟨kind, hmeans, hmakes⟩ := ofKind?_object_iff.1 he
        obtain ⟨rfl, -⟩ := means_string_iff.1 hmeans
        exact hnot e hmakes
      rw [ofValue?, pick_op_iff.2 hop]
      dsimp only
      rw [hnone]
      rfl
    | array hmeans hfits => exact ofKind?_array_iff.2 ⟨_, _, hmeans, hfits⟩

theorem decodeOne?_eq_some_iff {bytes : ByteArray} :
    format.decodeOne? bytes = some e ↔ ∃ v, Value.ofBytes? bytes = some v ∧ Reads v e := by
  have hread : format.decodeOne? bytes = (Value.ofBytes? bytes).bind ofValue? := by
    rw [Value.ofBytes?, Format.decodeOne?]
    cases Outline.ofBytes? bytes <;> rfl
  simp only [hread, Option.bind_eq_some_iff, ofValue?_eq_some_iff]

/-- A text is read as an effect when its value is one by the grammar.  An object with one `op`, a
text, always is, and the effect is of that kind: the unknown one if the other members do not make an
effect of it. -/
theorem read_by_grammar (bytes : ByteArray) :
    (∀ e, format.decodeOne? bytes = some e ↔ ∃ v, Value.ofBytes? bytes = some v ∧ Reads v e) ∧
      ∀ members op, Value.ofBytes? bytes = some (.object members) →
        Sole members "op" (some (.string op)) →
          ∃ e, format.decodeOne? bytes = some e ∧ e.kind = op ∧
            (Makes members op e ∨ e = .unknown op ∧ ∀ e', ¬ Makes members op e') := by
  refine ⟨fun e => decodeOne?_eq_some_iff, fun members op hv hop => ?_⟩
  by_cases h : ∃ e, Makes members op e
  · obtain ⟨e, hmakes⟩ := h
    obtain ⟨fields, -, hfits⟩ := id hmakes
    refine ⟨e, decodeOne?_eq_some_iff.2 ⟨_, hv, ?_⟩, hfits.kind_eq, .inl hmakes⟩
    exact .object hop (.name hfits.mem_kinds) hmakes
  · have hnot := not_exists.1 h
    exact ⟨.unknown op, decodeOne?_eq_some_iff.2 ⟨_, hv, .unknown hop hnot⟩, rfl, .inr ⟨rfl, hnot⟩⟩

/-- A price that is a text keeps a lock from being read. -/
theorem read_by_grammar_mistyped_price :
    ∃ e, format.decodeOne?
        "\x7b\"pages\":[1],\"op\":\"lockPages\",\"priceCents\":\"5\"\x7d".toUTF8 = some e ∧
      e.kind = "lockPages" := by
  have hv : Value.ofBytes?
      "\x7b\"pages\":[1],\"op\":\"lockPages\",\"priceCents\":\"5\"\x7d".toUTF8 =
        some (.object [("pages", .array [.nat 1]), ("op", .string "lockPages"),
          ("priceCents", .string "5")]) := rfl
  have hop : Sole [("pages", .array [.nat 1]), ("op", .string "lockPages"),
      ("priceCents", .string "5")] "op" (some (.string "lockPages")) := pickOne_eq_some_iff.1 rfl
  obtain ⟨e, hread, hkind, -⟩ := (read_by_grammar _).2 _ _ hv hop
  exact ⟨e, hread, hkind⟩

/-- The number of its place is read as a kind, in an object and in an array. -/
theorem read_by_place :
    format.decodeOne? "\x7b\"op\":0,\"message\":\"a\"\x7d".toUTF8 = some (.log "a") ∧
      format.decodeOne? "[0,\"a\"]".toUTF8 = some (.log "a") :=
  ⟨rfl, rfl⟩

end Effect

end PageScript
