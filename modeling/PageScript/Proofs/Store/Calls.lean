import PageScript.Proofs.Store.Recording

/-!
# A ledger is an atomic list

Whatever is in the slot of a ledger, and whichever accesses fail, a call on the ledger is a call on
a plain list that is carried out as a whole or not at all.  `Call.makes?` and `Call.answer` say what
a call does to a list and what it answers, and `Ledger.Ends` in which ways it ends on a ledger; a
sequence of calls is then one on a list on which the calls that fail do nothing (`ListCalls`).
`Ledger.atomic_list` has these together, with when a call succeeds and what an update may use.

What is asked of the records is that lists of them are read back as they were written
(`Json.Format.Lossless`).  Numbers are such records.
-/

namespace PageScript

open Json

variable {α β : Type}

namespace Json.Format

/-- Every list that is written is read back as it was. -/
def Lossless (f : Format α) : Prop :=
  ∀ records, f.decode? (f.encode records) = some records

theorem restores_uint32 (room : ℕ) (n : UInt32) : uint32.Restores room n where
  exact := Value.exact_uint32 n
  read?_eq := by
    have hv := Value.value?_outline (.nat n.toNat) (Value.exact_uint32 n) (Nat.zero_le room)
    have hread : ((Value.nat n.toNat).outline.value? room).bind Value.uint32? = some n := by
      rw [hv, Option.bind_some, Value.uint32?_nat]
    exact hread

theorem lossless_uint32 : uint32.Lossless :=
  fun _ => decode?_encode uint32 fun n _ => restores_uint32 126 n

end Json.Format

namespace Fault

/-- None of the faults is for accesses of this kind. -/
def Spare (access : Access) (faults : List Fault) : Prop :=
  ∀ f ∈ faults, f.on ≠ access

theorem ask_of_spare {access : Access} {faults : List Fault} (h : Spare access faults)
    (key : String) : ask access key faults = (none, faults) := by
  induction faults with
  | nil => rfl
  | cons f rest ih =>
    obtain ⟨hf, hrest⟩ := List.forall_mem_cons.1 h
    have hc : f.concerns access key = false := by simp [concerns, hf]
    simp [ask, hc, ih hrest]

end Fault

namespace Desk

theorem load_of_spare {d : Desk} {key : String} {slot : Option ByteArray}
    (hload : d.backing.load key = .ok slot) (h : Fault.Spare .load d.faults) :
    (load key).run d = (.ok slot, d.note (.loaded key)) := by
  simp [load, Fault.ask_of_spare h, hload]

theorem save_of_spare {d : Desk} {slots : Table ByteArray} (hb : d.backing = .memory slots)
    (h : Fault.Spare .save d.faults) (key : String) (content : ByteArray) :
    ∃ q, (save key content).run d = (.ok (), q) ∧
      q.backing = .memory (slots.put key content) ∧ q.faults = d.faults := by
  refine ⟨{ d with backing := .memory (slots.put key content) }.note (.saved key), ?_, rfl, rfl⟩
  simp [save, Fault.ask_of_spare h, hb, Backing.save]

end Desk

/-- A call on a list of records. -/
inductive Call (α β : Type) where
  | append (a : α)
  | appendToClone (a : α)
  | read
  | clear
  | update (change : List α → Option β × List α)

/-- What a call answers. -/
inductive Answer (α β : Type) where
  | done
  | records (as : List α)
  | changed (b : Option β)

namespace Call

/-- What a call makes of a list; none when it leaves the list alone. -/
def makes? : Call α β → List α → Option (List α)
  | .append a, as | .appendToClone a, as => some (as ++ [a])
  | .read, _ => none
  | .clear, _ => some []
  | .update change, as => (change as).1.map fun _ => (change as).2

def answer : Call α β → List α → Answer α β
  | .append _, _ | .appendToClone _, _ | .clear, _ => .done
  | .read, as => .records as
  | .update change, as => .changed (change as).1

/-- Whether the records are read, which clearing does without. -/
def reads : Call α β → Bool
  | .clear => false
  | _ => true

/-- What is taken down when the records are read. -/
def reading (key : String) (c : Call α β) : List Occurrence :=
  if c.reads then [.loaded key] else []

/-- Makes a call on a ledger. -/
def perform (l : Ledger α) : Call α β → Action (Answer α β)
  | .append a => do
    l.append a
    return .done
  | .appendToClone a => do
    l.clone.append a
    return .done
  | .read => return .records (← l.read)
  | .clear => do
    l.clear
    return .done
  | .update change => return .changed (← l.update change)

end Call

/-- Calls on a plain list, some of which fail and do nothing. -/
inductive ListCalls : List α → List (Call α β × Except Failure (Answer α β)) → List α → Prop
  | none (as : List α) : ListCalls as [] as
  | failed {as bs : List α} {log : List (Call α β × Except Failure (Answer α β))} (c : Call α β)
    (f : Failure) (hrest : ListCalls as log bs) : ListCalls as ((c, .error f) :: log) bs
  | carried {as bs : List α} {log : List (Call α β × Except Failure (Answer α β))} (c : Call α β)
    (hrest : ListCalls ((c.makes? as).getD as) log bs) :
    ListCalls as ((c, .ok (c.answer as)) :: log) bs

namespace Ledger

/-- How the call `c` at the desk `d` may end.  The accesses it tried are those that are taken
down. -/
inductive Ends (l : Ledger α) (c : Call α β) (d : Desk) :
    Except Failure (Answer α β) × Desk → Prop
  | unread {f : Failure} {q : Desk} (hc : c.reads = true) (hq : d.Reaches 0 [.loadFailed l.key f] q)
    (hb : q.backing = d.backing) : Ends l c d (.error f, q)
  | unsaved {as : List α} {f : Failure} {q : Desk} (hc : c.makes? (l.records d.backing) = some as)
    (hq : d.Reaches 0 (c.reading l.key ++ [.saveFailed l.key f]) q) (hb : q.backing = d.backing) :
    Ends l c d (.error f, q)
  | unchanged {q : Desk} (hc : c.makes? (l.records d.backing) = none)
    (hq : d.Reaches 0 (c.reading l.key) q) (hb : q.backing = d.backing) :
    Ends l c d (.ok (c.answer (l.records d.backing)), q)
  | changed {as : List α} {q : Desk} (hc : c.makes? (l.records d.backing) = some as)
    (hq : d.Reaches 0 (c.reading l.key ++ [.saved l.key]) q) (hb : l.records q.backing = as) :
    Ends l c d (.ok (c.answer (l.records d.backing)), q)

/-- Calls one after the other, the faults being replaced at any time in between. -/
inductive Calls (l : Ledger α) : Desk → List (Call α β × Except Failure (Answer α β)) → Desk → Prop
  | none (d : Desk) : Calls l d [] d
  | call {c : Call α β} {r : Except Failure (Answer α β)} {d q q' : Desk}
    {log : List (Call α β × Except Failure (Answer α β))} (h : (c.perform l).run d = (r, q))
    (hrest : Calls l q log q') : Calls l d ((c, r) :: log) q'
  | faults {d q : Desk} {log : List (Call α β × Except Failure (Answer α β))} (faults : List Fault)
    (hrest : Calls l { d with faults } log q) : Calls l d log q

theorem records_save_lossless {l : Ledger α} (hl : l.format.Lossless) {as : List α}
    {b b' : Backing} (h : l.Saves as b b') : l.records b' = as := by
  simp [records, Backing.load_save_self h, view, hl as]

theorem ends_append {l : Ledger α} (hl : l.format.Lossless) {c : Call α β} {a : α}
    (hm : ∀ as, c.makes? as = some (as ++ [a])) (ha : ∀ as, c.answer as = .done)
    (hr : c.reads = true) (d : Desk) :
    l.Ends c d ((do l.append a; return .done : Action (Answer α β)).run d) := by
  have happend := l.appends_append a d
  have hreading : c.reading l.key = [.loaded l.key] := if_pos hr
  rcases h : (l.append a).run d with ⟨r, q⟩
  rw [h] at happend
  cases happend with
  | failed hw hq hb =>
    rw [run_bind_of_error h]
    cases hw with
    | unread => exact .unread hr hq hb
    | unsaved => exact .unsaved (hm _) (by rwa [hreading]) hb
  | saved hq hb =>
    rw [run_bind_of_ok h]
    have hend := Ends.changed (hm _) (by rwa [hreading]) (records_save_lossless hl hb)
    rwa [ha] at hend

theorem ends_read (l : Ledger α) (d : Desk) :
    l.Ends (.read : Call α β) d ((Call.read.perform l).run d) := by
  rcases l.read_cases d with ⟨f, q, h, hq, hb⟩ | ⟨q, h, hq, hb⟩
  · rw [Call.perform, run_bind_of_error h]
    exact .unread rfl hq hb
  · rw [Call.perform, run_bind_of_ok h]
    exact .unchanged rfl hq hb

theorem ends_clear {l : Ledger α} (hl : l.format.Lossless) (d : Desk) :
    l.Ends (.clear : Call α β) d ((Call.clear.perform l).run d) := by
  rcases l.clear_cases d with ⟨f, q, h, hq, hb⟩ | ⟨q, h, hq, hb⟩
  · rw [Call.perform, run_bind_of_error h]
    exact .unsaved rfl hq hb
  · rw [Call.perform, run_bind_of_ok h]
    exact .changed rfl hq (records_save_lossless hl hb)

theorem ends_update {l : Ledger α} (hl : l.format.Lossless)
    (change : List α → Option β × List α) (d : Desk) :
    l.Ends (.update change) d (((Call.update change).perform l).run d) := by
  have hupdate := l.updates_update change d
  rcases h : (l.update change).run d with ⟨r, q⟩
  rw [h] at hupdate
  cases hupdate with
  | failed hw hq hb hc =>
    rw [Call.perform, run_bind_of_error h]
    cases hw with
    | unread => exact .unread rfl hq hb
    | unsaved =>
      obtain ⟨b, hs⟩ := Option.ne_none_iff_exists'.1 (hc List.mem_cons_self)
      exact .unsaved (by rw [Call.makes?, hs, Option.map_some]) hq hb
  | unchanged hc hq hb =>
    rw [Call.perform, run_bind_of_ok h]
    have hm : (Call.update change).makes? (l.records d.backing) = none := by
      rw [Call.makes?, hc, Option.map_none]
    have hend := Ends.unchanged hm hq hb
    rwa [Call.answer, hc] at hend
  | @saved b changed _ hc hq hb =>
    rw [Call.perform, run_bind_of_ok h]
    have hm : (Call.update change).makes? (l.records d.backing) = some changed := by
      rw [Call.makes?, hc, Option.map_some]
    have hend := Ends.changed hm hq (records_save_lossless hl hb)
    rwa [Call.answer, hc] at hend

theorem ends_perform {l : Ledger α} (hl : l.format.Lossless) (c : Call α β) (d : Desk) :
    l.Ends c d ((c.perform l).run d) := by
  cases c with
  | append a => exact ends_append hl (fun _ => rfl) (fun _ => rfl) rfl d
  | appendToClone a =>
    exact ends_append (a := a) hl (fun _ => rfl) (fun _ => rfl) rfl d
  | read => exact l.ends_read d
  | clear => exact ends_clear hl d
  | update change => exact ends_update hl change d

/-- The answers and the records of a sequence of calls are those of a plain list. -/
theorem Calls.listCalls {l : Ledger α} (hl : l.format.Lossless) {d q : Desk}
    {log : List (Call α β × Except Failure (Answer α β))} (h : l.Calls d log q) :
    ListCalls (l.records d.backing) log (l.records q.backing) := by
  induction h with
  | none d => exact .none _
  | faults faults _ ih => exact ih
  | @call c r d q q' log h _ ih =>
    have hend := ends_perform hl c d
    rw [h] at hend
    cases hend with
    | unread _ _ hb | unsaved _ _ hb =>
      rw [hb] at ih
      exact .failed c _ ih
    | unchanged hc _ hb =>
      refine .carried c ?_
      rwa [hc, Option.getD_none, ← hb]
    | changed hc _ hb =>
      refine .carried c ?_
      rwa [hc, Option.getD_some, ← hb]

theorem read_of_spare (l : Ledger α) {d : Desk} {slot : Option ByteArray}
    (hload : d.backing.load l.key = .ok slot) (h : Fault.Spare .load d.faults) :
    l.read.run d = (.ok (l.records d.backing), d.note (.loaded l.key)) := by
  rw [read, run_bind_of_ok (Desk.load_of_spare hload h), records_of_load hload]
  rfl

theorem read_of_memory (l : Ledger α) {d : Desk} {slots : Table ByteArray}
    (hb : d.backing = .memory slots) (h : Fault.Spare .load d.faults) :
    l.read.run d = (.ok (l.records d.backing), d.note (.loaded l.key)) :=
  l.read_of_spare (hb ▸ Backing.load_memory slots) h

theorem append_of_spare (l : Ledger α) (a : α) {d : Desk} {slots : Table ByteArray}
    (hb : d.backing = .memory slots) (hload : Fault.Spare .load d.faults)
    (hsave : Fault.Spare .save d.faults) :
    ∃ q, (l.append a).run d = (.ok (), q) ∧
      q.backing = .memory (slots.put l.key (l.format.encode (l.records d.backing ++ [a]))) ∧
      q.faults = d.faults := by
  rw [append, run_bind_of_ok (l.read_of_memory hb hload)]
  exact Desk.save_of_spare (d := d.note (.loaded l.key)) hb hsave l.key _

/-- In memory a record that is made is appended when no fault is for an access. -/
theorem make_of_spare (l : Ledger α) {make : StateM Desk α} {a : α} {d d' : Desk}
    {slots : Table ByteArray} (hm : make d = (a, d')) (hd : d'.backing = d.backing)
    (hf : d'.faults = d.faults) (hb : d.backing = .memory slots)
    (hload : Fault.Spare .load d.faults) (hsave : Fault.Spare .save d.faults) :
    ∃ q, (do let a ← make; l.append a; return a : Action α).run d = (.ok a, q) ∧
      q.backing = .memory (slots.put l.key (l.format.encode (l.records d.backing ++ [a]))) ∧
      q.faults = d.faults := by
  rw [← hd] at hb ⊢
  rw [← hf] at hload hsave ⊢
  obtain ⟨q, h, hq⟩ := l.append_of_spare a hb hload hsave
  exact ⟨q, (run_bind_of_ok (run_lift_of_eq hm) _).trans (run_bind_of_ok h _), hq⟩

/-- In memory a call succeeds when no fault is for the accesses it makes. -/
theorem succeeds_of_spare (l : Ledger α) {c : Call α β} {d : Desk} {slots : Table ByteArray}
    (hb : d.backing = .memory slots) (hload : c.reads = true → Fault.Spare .load d.faults)
    (hsave : c.makes? (l.records d.backing) ≠ none → Fault.Spare .save d.faults) :
    ∃ a q, (c.perform l).run d = (.ok a, q) := by
  cases c with
  | append a | appendToClone a =>
    obtain ⟨q, h, -⟩ := l.append_of_spare a hb (hload rfl) (hsave (by simp [Call.makes?]))
    exact ⟨_, q, run_bind_of_ok h _⟩
  | read => exact ⟨_, _, run_bind_of_ok (l.read_of_memory hb (hload rfl)) _⟩
  | clear =>
    obtain ⟨q, h, -⟩ := Desk.save_of_spare hb (hsave (by simp [Call.makes?])) l.key
      (l.format.encode [])
    exact ⟨_, q, run_bind_of_ok h _⟩
  | update change =>
    rw [Call.perform, update, bind_assoc, run_bind_of_ok (l.read_of_memory hb (hload rfl))]
    rcases hc : change (l.records d.backing) with ⟨_ | b, changed⟩
    · exact ⟨_, _, rfl⟩
    · obtain ⟨q, h, -⟩ := Desk.save_of_spare (d := d.note (.loaded l.key)) hb
        (hsave (by simp [Call.makes?, hc])) l.key (l.format.encode changed)
      exact ⟨_, q, run_bind_of_ok (run_bind_of_ok h _) _⟩

/-- What an update does when it has made the change `r` of the records. -/
def finish (l : Ledger α) (r : Option β × List α) : Action (Option β) :=
  match r with
  | (none, _) => return none
  | (some b, changed) => do
    l.write changed
    return some b

/-- After its load, what an update does is a function of what its change makes of the records. -/
theorem update_factors (l : Ledger α) (d : Desk) :
    (∃ f q, d.Reaches 0 [.loadFailed l.key f] q ∧
        ∀ change : List α → Option β × List α, (l.update change).run d = (.error f, q)) ∨
      ∃ q, d.Reaches 0 [.loaded l.key] q ∧
        ∀ change : List α → Option β × List α,
          (l.update change).run d = (l.finish (change (l.records d.backing))).run q := by
  rcases l.read_cases d with ⟨f, q, h, hq, -⟩ | ⟨q, h, hq, -⟩
  · exact .inl ⟨f, q, hq, fun change => run_bind_of_error h _⟩
  · exact .inr ⟨q, hq, fun change => run_bind_of_ok h _⟩

/-- That the ledger is an atomic list, for updates that answer with a `β`. -/
structure Atomic (β : Type) (l : Ledger α) : Prop where
  /-- A call is carried out as a whole, or it fails and leaves the backing as it was. -/
  ends : ∀ (c : Call α β) (d : Desk), l.Ends c d ((c.perform l).run d)
  /-- It fails for no other reason than that an access does which it needs. -/
  succeeds : ∀ (c : Call α β) (d : Desk) (slots : Table ByteArray), d.backing = .memory slots →
    (c.reads = true → Fault.Spare .load d.faults) →
      (c.makes? (l.records d.backing) ≠ none → Fault.Spare .save d.faults) →
        ∃ a q, (c.perform l).run d = (.ok a, q)
  /-- An update uses what its change makes of the records, once they are loaded, and makes no other
  use of the change. -/
  once : ∀ d : Desk,
    (∃ f q, d.Reaches 0 [.loadFailed l.key f] q ∧
        ∀ change : List α → Option β × List α, (l.update change).run d = (.error f, q)) ∨
      ∃ q, d.Reaches 0 [.loaded l.key] q ∧
        ∀ change : List α → Option β × List α,
          (l.update change).run d = (l.finish (change (l.records d.backing))).run q
  /-- Calls one after the other are calls on the list of the records. -/
  sequence : ∀ (d q : Desk) (log : List (Call α β × Except Failure (Answer α β))),
    l.Calls d log q → ListCalls (l.records d.backing) log (l.records q.backing)

/-- Every ledger whose lists of records are read back as they were written is an atomic list, one
of numbers among them. -/
theorem atomic_list :
    (∀ {α : Type} (β : Type) (l : Ledger α), l.format.Lossless → l.Atomic β) ∧
      Format.uint32.Lossless := by
  refine ⟨fun β l hl => ⟨?_, ?_, l.update_factors, ?_⟩, Format.lossless_uint32⟩
  · exact fun c d => ends_perform hl c d
  · exact fun c d slots hb => l.succeeds_of_spare hb
  · exact fun d q log h => h.listCalls hl

theorem atomic_list_unloadable :
    let l : Ledger UInt32 := ⟨"numbers", .uint32⟩
    let d : Desk := ⟨.memory [("numbers", "\x7bnot json".toUTF8)],
      [⟨.load, none, 0, none, .inOut (.refused "no such disk")⟩], 0, .countingFrom 0, []⟩
    l.format.Lossless ∧ ∃ q, (Call.clear.perform l : Action (Answer UInt32 Unit)).run d =
      (.ok .done, q) ∧ l.records q.backing = [] ∧ q.record = [.saved "numbers"] := by
  intro l d
  have hl : l.format.Lossless := atomic_list.2
  have hatomic : l.Atomic Unit := atomic_list.1 Unit l hl
  obtain ⟨a, q, h⟩ := hatomic.succeeds .clear d _ rfl (fun hc => nomatch hc)
    fun _ => by simp [Fault.Spare, d]
  have hend := hatomic.ends .clear d
  rw [h] at hend
  cases hend with
  | unchanged hc => cases hc
  | changed hc hq hb =>
    cases hc
    exact ⟨hl, q, h, hb, hq.record⟩

end Ledger

end PageScript
