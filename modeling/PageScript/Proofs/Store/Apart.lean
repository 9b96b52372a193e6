import PageScript.Proofs.Store.Related

/-!
# The two stores are apart

Chain and payments keep their records in one backing.  What a store is asked to do depends on the
desk only by the time, the next id, the faults for its own slot and what becomes of that slot
(`Desk.suits_seesNow`), and what the other store does in between changes none of these
(`Desk.suits_sees_of_ne`).  So of requests to both stores, in whatever order, each store answers its
own as if it were alone (`serve_alone`), and no third slot is ever touched (`Backing.OnlySlots`).
`stores_do_not_interfere` has the two together.
-/

namespace PageScript

namespace Fault

/-- The faults for accesses to one slot. -/
def of (key : String) (faults : List Fault) : List Fault :=
  faults.filter fun f => f.key = some key

variable {faults : List Fault} {key other : String}

theorem key_of_mem_ask (access : Access) {f : Fault} (hf : f ∈ (ask access key faults).2) :
    ∃ f' ∈ faults, f'.key = f.key := by
  induction faults with
  | nil => simp [ask] at hf
  | cons g rest ih =>
    simp only [ask] at hf
    split_ifs at hf <;> rcases List.mem_cons.1 hf with rfl | hf
    · exact ⟨f, List.mem_cons_self, rfl⟩
    · exact (ih hf).imp fun f' h => ⟨List.mem_cons_of_mem _ h.1, h.2⟩
    · exact ⟨g, List.mem_cons_self, rfl⟩
    · exact (ih hf).imp fun f' h => ⟨List.mem_cons_of_mem _ h.1, h.2⟩
    · exact ⟨g, List.mem_cons_self, rfl⟩
    · exact ⟨f, List.mem_cons_of_mem _ hf, rfl⟩

theorem of_cons_self {f : Fault} (h : f.key = some key) (rest : List Fault) :
    of key (f :: rest) = f :: of key rest :=
  List.filter_cons_of_pos (by simpa using h)

theorem of_cons_of_ne {f : Fault} (h : f.key ≠ some key) (rest : List Fault) :
    of key (f :: rest) = of key rest :=
  List.filter_cons_of_neg (by simpa using h)

/-- A fault for one slot is asked in vain about another. -/
theorem ask_cons_of_ne {f : Fault} (hf : f.key ≠ none) (h : f.key ≠ some key) (access : Access)
    (rest : List Fault) :
    ask access key (f :: rest) = ((ask access key rest).1, f :: (ask access key rest).2) := by
  obtain ⟨name, hname⟩ := Option.ne_none_iff_exists'.1 hf
  have hne : name ≠ key := fun heq => h (by rw [hname, heq])
  have hconcerns : f.concerns access key = false := by simp [concerns, hname, hne]
  simp [ask, hconcerns]

/-- Where every fault is for one slot, those for other slots have nothing to say of an access. -/
theorem ask_of (h : ∀ f ∈ faults, f.key ≠ none) (access : Access) (key : String) :
    ask access key (of key faults) =
      ((ask access key faults).1, of key (ask access key faults).2) := by
  induction faults with
  | nil => rfl
  | cons f rest ih =>
    obtain ⟨hf, hrest⟩ := List.forall_mem_cons.1 h
    by_cases hkey : f.key = some key
    · rw [of_cons_self hkey]
      simp only [ask, ih hrest]
      split_ifs <;> simp [of_cons_self, hkey]
    · rw [of_cons_of_ne hkey, ask_cons_of_ne hf hkey, ih hrest, of_cons_of_ne hkey]

/-- An access to another slot changes nothing of the faults for this one. -/
theorem of_ask_of_ne (h : ∀ f ∈ faults, f.key ≠ none) (hne : other ≠ key) (access : Access) :
    of key (ask access other faults).2 = of key faults := by
  induction faults with
  | nil => rfl
  | cons f rest ih =>
    obtain ⟨hf, hrest⟩ := List.forall_mem_cons.1 h
    by_cases hkey : f.key = some other
    · have hnot : f.key ≠ some key := fun h => hne (Option.some.inj (hkey.symm.trans h))
      simp only [ask]
      split_ifs <;> simp [of_cons_of_ne, hnot, ih hrest]
    · rw [ask_cons_of_ne hf hkey]
      by_cases hself : f.key = some key
      · rw [of_cons_self hself, of_cons_self hself, ih hrest]
      · rw [of_cons_of_ne hself, of_cons_of_ne hself, ih hrest]

end Fault

namespace Desk

variable {d d' : Desk} {key other : String}

/-- Two desks that are the same to a store with the slot, but for the time and the ids. -/
structure Sees (key : String) (d d' : Desk) : Prop where
  faults : Fault.of key d.faults = Fault.of key d'.faults
  keyed : ∀ f ∈ d.faults, f.key ≠ none
  keyed' : ∀ f ∈ d'.faults, f.key ≠ none
  slot : Backing.Alike key d.backing d'.backing

namespace Sees

theorem ask (h : Sees key d d') (access : Access) :
    (Fault.ask access key d.faults).1 = (Fault.ask access key d'.faults).1 ∧
      Fault.of key (Fault.ask access key d.faults).2 =
        Fault.of key (Fault.ask access key d'.faults).2 := by
  have hd := Fault.ask_of h.keyed access key
  have hd' := Fault.ask_of h.keyed' access key
  rw [h.faults, hd'] at hd
  exact ⟨(congrArg Prod.fst hd).symm, (congrArg Prod.snd hd).symm⟩

theorem keyed_ask {faults : List Fault} (h : ∀ f ∈ faults, f.key ≠ none) (access : Access)
    (key : String) : ∀ f ∈ (Fault.ask access key faults).2, f.key ≠ none := by
  intro f hf
  obtain ⟨f', hf', hkey⟩ := Fault.key_of_mem_ask access hf
  rw [← hkey]
  exact h f' hf'

end Sees

/-- Two desks that are the same to a store with the slot. -/
def SeesNow (key : String) (d d' : Desk) : Prop :=
  Sees key d d' ∧ d.now = d'.now ∧ d.ids = d'.ids

theorem suits_seesNow (hk : Backing.IsSlotName key) : Suits (SeesNow key) key where
  now _ _ h := h.2.1
  drawId d d' h := by
    obtain ⟨hsees, hnow, hids⟩ := h
    refine ⟨?_, ⟨hsees.faults, hsees.keyed, hsees.keyed', hsees.slot⟩, hnow, ?_⟩
    · simp only [drawId, hids]
    · simp only [drawId, hids]
  load d d' h := by
    obtain ⟨hsees, hnow, hids⟩ := h
    obtain ⟨hask, hof⟩ := hsees.ask .load
    obtain ⟨r, o, hd, hd'⟩ := load_alike hask hsees.slot.load
    rw [hd, hd']
    exact ⟨rfl, ⟨hof, Sees.keyed_ask hsees.keyed _ _, Sees.keyed_ask hsees.keyed' _ _,
      hsees.slot⟩, hnow, hids⟩
  save content d d' h := by
    obtain ⟨hsees, hnow, hids⟩ := h
    obtain ⟨hask, hof⟩ := hsees.ask .save
    have hkeyed := Sees.keyed_ask hsees.keyed .save key
    have hkeyed' := Sees.keyed_ask hsees.keyed' .save key
    rcases save_alike content hask hsees.slot with
      ⟨f, hd, hd'⟩ | ⟨b, b', hb, hb', hd, hd'⟩
    · rw [hd, hd']
      exact ⟨rfl, ⟨hof, hkeyed, hkeyed', hsees.slot⟩, hnow, hids⟩
    · rw [hd, hd']
      exact ⟨rfl, ⟨hof, hkeyed, hkeyed', Backing.alike_save_self hk hb hb'⟩, hnow, hids⟩

/-- What a store with another slot does goes unseen. -/
theorem suits_sees_of_ne (hk : Backing.IsSlotName key) (ho : Backing.IsSlotName other)
    (hne : other ≠ key) (d' : Desk) : Suits (Keeping (Sees key · d')) other := by
  refine suits_keeping (fun d ids h => ⟨h.faults, h.keyed, h.keyed', h.slot⟩) (fun d h => ?_)
    fun content d h => ?_
  · obtain ⟨o, hd⟩ := load_leaves other d
    rw [hd]
    exact ⟨(Fault.of_ask_of_ne h.keyed hne .load).trans h.faults, Sees.keyed_ask h.keyed _ _,
      h.keyed', h.slot⟩
  · have hfaults := (Fault.of_ask_of_ne h.keyed hne .save).trans h.faults
    have hkeyed := Sees.keyed_ask h.keyed .save other
    obtain ⟨o, hd | ⟨b, hb, hd⟩⟩ := save_leaves other content d
    · rw [hd]
      exact ⟨hfaults, hkeyed, h.keyed', h.slot⟩
    · rw [hd]
      exact ⟨hfaults, hkeyed, h.keyed', (Backing.alike_save_of_ne ho hk hne.symm hb).trans h.slot⟩

end Desk

/-- What an operation is given: the time, and the unique text for the record it may make. -/
structure Moment where
  now : Int64
  uuid : String

def Desk.given (d : Desk) (m : Moment) : Desk :=
  { d with now := m.now, ids := ⟨fun _ => m.uuid, 0⟩ }

section Serve

variable {ρ α ρ' α' : Type}

/-- Serves requests one after the other. -/
def serve (perform : ρ → StateM Desk α) : List (Moment × ρ) → StateM Desk (List α)
  | [] => return []
  | (m, r) :: rest => do
    modify (·.given m)
    let a ← perform r
    return a :: (← serve perform rest)

theorem serve_cons (perform : ρ → StateM Desk α) (m : Moment) (r : ρ) (rest : List (Moment × ρ))
    (d : Desk) :
    serve perform ((m, r) :: rest) d =
      ((perform r (d.given m)).1 :: (serve perform rest (perform r (d.given m)).2).1,
        (serve perform rest (perform r (d.given m)).2).2) :=
  rfl

/-- The requests that are for one store. -/
def own (own? : ρ → Option ρ') (requests : List (Moment × ρ)) : List (Moment × ρ') :=
  requests.filterMap fun (m, r) => (own? r).map (m, ·)

/-- A store answers its own requests as if it were alone, when it does so for each of them and the
others go unseen. -/
theorem serve_alone {key : String} {perform : ρ → StateM Desk α} {performOwn : ρ' → StateM Desk α'}
    {own? : ρ → Option ρ'} {answer? : α → Option α'}
    (hown : ∀ r r', own? r = some r' → ∀ d d', Desk.SeesNow key d d' →
      answer? (perform r d).1 = some (performOwn r' d').1 ∧
        Desk.SeesNow key (perform r d).2 (performOwn r' d').2)
    (hother : ∀ r, own? r = none → ∀ d d', Desk.Sees key d d' →
      answer? (perform r d).1 = none ∧ Desk.Sees key (perform r d).2 d')
    (requests : List (Moment × ρ)) {d d' : Desk} (h : Desk.Sees key d d') :
    (serve perform requests d).1.filterMap answer? =
        (serve performOwn (own own? requests) d').1 ∧
      Desk.Sees key (serve perform requests d).2 (serve performOwn (own own? requests) d').2 := by
  induction requests generalizing d d' with
  | nil => exact ⟨rfl, h⟩
  | cons q rest ih =>
    obtain ⟨m, r⟩ := q
    have hgiven : Desk.Sees key (d.given m) d' := ⟨h.faults, h.keyed, h.keyed', h.slot⟩
    rw [serve_cons]
    rcases hr : own? r with _ | r'
    · obtain ⟨hanswer, hsees⟩ := hother r hr _ _ hgiven
      rw [List.filterMap_cons_none hanswer]
      have hskip : own own? ((m, r) :: rest) = own own? rest := by simp [own, hr]
      rw [hskip]
      exact ih hsees
    · have hnow : Desk.SeesNow key (d.given m) (d'.given m) :=
        ⟨⟨h.faults, h.keyed, h.keyed', h.slot⟩, rfl, rfl⟩
      obtain ⟨hanswer, hsees⟩ := hown r r' hr _ _ hnow
      have htake : own own? ((m, r) :: rest) = (m, r') :: own own? rest := by simp [own, hr]
      obtain ⟨hrest, hend⟩ := ih hsees.1
      rw [List.filterMap_cons_some hanswer, htake, serve_cons, hrest]
      exact ⟨rfl, hend⟩

end Serve

namespace Backing

/-- Nothing has become different but the two slots: in memory no other entry, in files no other file
and nothing that can be loaded from another slot. -/
inductive OnlySlots : Backing → Backing → Prop
  | memory {slots slots' : Table ByteArray}
    (h : ∀ key, (∀ slot : Slot, slot.key ≠ key) → slots'.get? key = slots.get? key) :
    OnlySlots (.memory slots) (.memory slots')
  | files {f f' : Files} {folder : Path}
    (hload : ∀ key, IsSlotName key → (∀ slot : Slot, slot.key ≠ key) →
      (files f' folder).load key = (files f folder).load key)
    (hplace : ∀ slot : Slot,
      f'.placeFor (slotPath folder slot.key) = f.placeFor (slotPath folder slot.key))
    (hfile : ∀ place,
      (∀ slot : Slot, f.placeFor (slotPath folder slot.key) ≠ .ok (some place)) → ∀ content,
        f'.root.node? place = some (.file content) ↔ f.root.node? place = some (.file content)) :
    OnlySlots (.files f folder) (.files f' folder)

variable {b b' b'' : Backing}

theorem OnlySlots.refl (b : Backing) : b.OnlySlots b := by
  cases b with
  | memory slots => exact .memory fun _ _ => rfl
  | files f folder => exact .files (fun _ _ _ => rfl) (fun _ => rfl) fun _ _ _ => .rfl

theorem OnlySlots.save (h : b.OnlySlots b') {slot : Slot} {content : ByteArray}
    (hsave : b'.save slot.key content = .ok b'') : b.OnlySlots b'' := by
  cases h with
  | memory h =>
    cases hsave
    refine .memory fun key hkey => ?_
    rw [Table.get?_put_of_ne (hkey slot).symm, h key hkey]
  | @files f f' folder hload hplace hfile =>
    have hsaved := hsave
    obtain ⟨place, g, hf, hg, hnot, -, hlong, rfl⟩ := save_files slot.isSlotName hsave
    have hkeeps : f'.root.Keeps (f'.put (.file content) (place ++ [fileName slot.key])).root :=
      Folder.keeps_putNode hg hnot (.file content)
    refine .files (fun key hk hkey => ?_) (fun other => ?_) fun there hthere new => ?_
    · rw [load_save_of_ne slot.isSlotName hk (hkey slot).symm hsaved, hload key hk hkey]
    · rw [← hplace, placeFor_slotPath other.isSlotName (Files.follow_of_keeps hkeeps hf)
        (Folder.node?_putNode hg _ _), placeFor_slotPath other.isSlotName hf hg]
    · have hne : there ≠ place ++ [fileName slot.key] := by
        rintro rfl
        refine hthere slot ?_
        rw [← hplace, placeFor_slotPath slot.isSlotName hf hg, if_neg hlong]
      rw [← hfile there hthere]
      exact Folder.node?_putNode_file hg hnot content hne new

end Backing

theorem Desk.suits_onlySlots (b : Backing) (slot : Slot) :
    Suits (Keeping fun d => b.OnlySlots d.backing) slot.key := by
  refine suits_keeping (fun d ids h => h) (fun d h => ?_) fun content d h => ?_
  · obtain ⟨o, hd⟩ := load_leaves slot.key d
    rw [hd]
    exact h
  · obtain ⟨o, hd | ⟨n, hn, hd⟩⟩ := save_leaves slot.key content d
    · rw [hd]
      exact h
    · rw [hd]
      exact h.save hn

/-- Asks the store that a request is for. -/
def performEither : Chain.Request ⊕ Payments.Request →
    StateM Desk (Except Failure Chain.Response ⊕ Except Failure Payments.Response)
  | .inl r => return .inl (← r.perform.run)
  | .inr r => return .inr (← r.perform.run)

/-- The desk for a store that is alone, with only the faults for its slot. -/
def Desk.alone (key : String) (d : Desk) : Desk :=
  { d with faults := Fault.of key d.faults }

theorem Desk.sees_alone {d : Desk} (h : ∀ f ∈ d.faults, f.key ≠ none) (key : String) :
    Sees key d (d.alone key) where
  faults := by simp [alone, Fault.of]
  keyed := h
  keyed' f hf := h f (List.mem_of_mem_filter hf)
  slot := .refl key _

theorem serve_keeps {ρ α : Type} {P : Desk → Prop} {perform : ρ → StateM Desk α}
    (hgiven : ∀ d m, P d → P (d.given m)) (h : ∀ r d, P d → P (perform r d).2)
    (requests : List (Moment × ρ)) {d : Desk} (hd : P d) : P (serve perform requests d).2 := by
  induction requests generalizing d with
  | nil => exact hd
  | cons q rest ih =>
    rw [serve_cons]
    exact ih (h _ _ (hgiven _ _ hd))

theorem chain_alone {d : Desk} (hkeyed : ∀ f ∈ d.faults, f.key ≠ none)
    (requests : List (Moment × (Chain.Request ⊕ Payments.Request))) :
    let chain := serve (fun r : Chain.Request => r.perform.run) (own Sum.getLeft? requests)
      (d.alone Chain.ledger.key)
    (serve performEither requests d).1.filterMap Sum.getLeft? = chain.1 ∧
      Desk.Sees Chain.ledger.key (serve performEither requests d).2 chain.2 := by
  refine serve_alone (fun r r' hr e e' he => ?_) (fun r hr e e' he => ?_) requests
    (Desk.sees_alone hkeyed _)
  · obtain rfl := Sum.getLeft?_eq_some_iff.1 hr
    obtain ⟨hanswer, hend⟩ :=
      Chain.respects_perform (Desk.suits_seesNow isSlotName_chain) r' he
    exact ⟨congrArg some hanswer, hend⟩
  · obtain ⟨r, rfl⟩ := Sum.isRight_iff.1 (Sum.getLeft?_eq_none_iff.1 hr)
    have hunseen := Desk.suits_sees_of_ne isSlotName_chain isSlotName_payments
      chain_key_ne_payments_key.symm e'
    exact ⟨rfl, respects_keeping.1 (Payments.respects_perform hunseen r) e he⟩

theorem payments_alone {d : Desk} (hkeyed : ∀ f ∈ d.faults, f.key ≠ none)
    (requests : List (Moment × (Chain.Request ⊕ Payments.Request))) :
    let payments := serve (fun r : Payments.Request => r.perform.run) (own Sum.getRight? requests)
      (d.alone Payments.ledger.key)
    (serve performEither requests d).1.filterMap Sum.getRight? = payments.1 ∧
      Desk.Sees Payments.ledger.key (serve performEither requests d).2 payments.2 := by
  refine serve_alone (fun r r' hr e e' he => ?_) (fun r hr e e' he => ?_) requests
    (Desk.sees_alone hkeyed _)
  · obtain rfl := Sum.getRight?_eq_some_iff.1 hr
    obtain ⟨hanswer, hend⟩ :=
      Payments.respects_perform (Desk.suits_seesNow isSlotName_payments) r' he
    exact ⟨congrArg some hanswer, hend⟩
  · obtain ⟨r, rfl⟩ := Sum.isLeft_iff.1 (Sum.getRight?_eq_none_iff.1 hr)
    have hunseen := Desk.suits_sees_of_ne isSlotName_payments isSlotName_chain
      chain_key_ne_payments_key e'
    exact ⟨rfl, respects_keeping.1 (Chain.respects_perform hunseen r) e he⟩

theorem onlySlots_serve (d : Desk)
    (requests : List (Moment × (Chain.Request ⊕ Payments.Request))) :
    d.backing.OnlySlots (serve performEither requests d).2.backing := by
  refine serve_keeps (P := fun e => d.backing.OnlySlots e.backing) (fun _ _ h => h)
    (fun r e he => ?_) requests (.refl d.backing)
  rcases r with r | r
  · exact respects_keeping.1
      (Chain.respects_perform (Desk.suits_onlySlots d.backing .chain) r) e he
  · exact respects_keeping.1
      (Payments.respects_perform (Desk.suits_onlySlots d.backing .payments) r) e he

/-- Requests to both stores, in whatever order, are answered by each store as if it were alone, and
leave in its slot what they would leave there then.  No third slot is touched. -/
theorem stores_do_not_interfere (d : Desk) (hkeyed : ∀ f ∈ d.faults, f.key ≠ none)
    (requests : List (Moment × (Chain.Request ⊕ Payments.Request))) :
    let together := serve performEither requests d
    let chain := serve (fun r : Chain.Request => r.perform.run) (own Sum.getLeft? requests)
      (d.alone Chain.ledger.key)
    let payments := serve (fun r : Payments.Request => r.perform.run) (own Sum.getRight? requests)
      (d.alone Payments.ledger.key)
    (together.1.filterMap Sum.getLeft? = chain.1 ∧
      together.2.backing.load Chain.ledger.key = chain.2.backing.load Chain.ledger.key) ∧
    (together.1.filterMap Sum.getRight? = payments.1 ∧
      together.2.backing.load Payments.ledger.key =
        payments.2.backing.load Payments.ledger.key) ∧
    d.backing.OnlySlots together.2.backing := by
  intro together chain payments
  obtain ⟨hchain, hseesChain⟩ := chain_alone hkeyed requests
  obtain ⟨hpayments, hseesPayments⟩ := payments_alone hkeyed requests
  exact ⟨⟨hchain, hseesChain.slot.load⟩, ⟨hpayments, hseesPayments.slot.load⟩,
    onlySlots_serve d requests⟩

/-- An event after a session that could not be saved, in a backing whose chain was spoilt. -/
theorem stores_do_not_interfere_spoilt_chain :
    let d : Desk := ⟨.memory [("pdfx_mock_chain", "\x7bnot json".toUTF8), ("notes", .empty)],
      [⟨.save, some "pdfx_mock_payments", 0, some 1, .inOut (.refused "disk full")⟩], 0,
      .countingFrom 0, []⟩
    let requests : List (Moment × (Chain.Request ⊕ Payments.Request)) :=
      [(⟨4, "a"⟩, .inr (.create 5 none none)), (⟨7, "b"⟩, .inl (.push "log" .null)),
        (⟨9, "c"⟩, .inr .list)]
    (∀ f ∈ d.faults, f.key ≠ none) ∧
      (serve performEither requests d).1.filterMap Sum.getLeft? =
        (serve (fun r : Chain.Request => r.perform.run) [(⟨7, "b"⟩, .push "log" .null)]
          (d.alone Chain.ledger.key)).1 ∧
      (serve performEither requests d).1 =
        [.inr (.error (.inOut (.refused "disk full"))),
          .inl (.ok (.event ⟨"ev_7_b", "log", .null, 7⟩)), .inr (.ok (.sessions []))] ∧
      (serve performEither requests d).2.backing.load "notes" = .ok (some .empty) := by
  intro d requests
  have hkeyed : ∀ f ∈ d.faults, f.key ≠ none := List.forall_mem_singleton.2 nofun
  obtain ⟨⟨hchain, -⟩, -, honly⟩ := stores_do_not_interfere d hkeyed requests
  refine ⟨hkeyed, hchain, by decide +kernel, ?_⟩
  generalize (serve performEither requests d).2.backing = b at honly
  cases honly with
  | memory h =>
    have hnotes := h "notes" fun slot => by cases slot <;> decide
    rw [Backing.load_memory, hnotes]
    rfl

end PageScript
