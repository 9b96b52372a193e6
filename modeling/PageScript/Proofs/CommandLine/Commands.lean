import PageScript.CommandLine.Perform
import PageScript.Proofs.Runner.Lifetimes
import PageScript.Proofs.Runner.Related

/-!
# What commands come to

At a desk where nothing stands in the way of an access, and none has failed, none fails
(`Desk.Smooth`).  What a command takes to succeed there is said of each (`Command.Accepts`), and a
command that does not succeed leaves the backing as it was (`Command.ends_perform`).  For most of
them that is so because they fail before they write; a confirmation, which writes to both slots, is
refused only before it has written to the first.
-/

namespace PageScript

variable {d d' : Desk} {α : Type}

/-! ### Desks where no access fails -/

namespace Desk

/-- Nothing stands in the way of an access, and none has failed. -/
structure Smooth (d : Desk) : Prop where
  faults : d.faults = []
  serves : ∀ slot : Slot, d.backing.Serves slot.key
  record : ∀ o ∈ d.record, ¬ o.IsFailure

theorem Smooth.note {o : Occurrence} (h : d.Smooth) (ho : ¬ o.IsFailure) : (d.note o).Smooth where
  faults := h.faults
  serves := h.serves
  record := List.forall_mem_append.2 ⟨h.record, List.forall_mem_singleton.2 ho⟩

theorem Smooth.load (h : d.Smooth) (slot : Slot) : ((load slot.key).run d).2.Smooth := by
  obtain ⟨content, hload⟩ := (h.serves slot).load
  have hrun : (Desk.load slot.key).run d = (.ok content, d.note (.loaded slot.key)) := by
    simp [Desk.load, h.faults, Fault.ask, hload, Desk.note]
  rw [hrun]
  exact h.note not_false

theorem Smooth.save (h : d.Smooth) (slot : Slot) (content : ByteArray) :
    ((save slot.key content).run d).2.Smooth := by
  obtain ⟨b, hsave⟩ := Backing.save_of_saving ((h.serves slot).saving content)
  have hrun : (Desk.save slot.key content).run d =
      (.ok (), { d with backing := b }.note (.saved slot.key)) := by
    simp [Desk.save, h.faults, Fault.ask, hsave]
  have hserves (other : Slot) : b.Serves other.key :=
    (h.serves other).save slot.isSlotName other.isSlotName hsave
  have hb : ({ d with backing := b } : Desk).Smooth := ⟨h.faults, hserves, h.record⟩
  rw [hrun]
  exact hb.note not_false

theorem Smooth.not_failed {key : String} {f : Failure} {w : List Occurrence} (h : d'.Smooth)
    (hw : Ledger.Failed key f w) (hr : ∀ o ∈ w, o.isUnheard = true → o ∈ d'.record) : False := by
  cases hw with
  | unread => exact h.record _ (hr (.loadFailed key f) (by simp) rfl) trivial
  | unsaved => exact h.record _ (hr (.saveFailed key f) (by simp) rfl) trivial

theorem Reaches.mem_record {n : ℕ} {w : List Occurrence} (h : d.Reaches n w d') :
    ∀ o ∈ w, o.isUnheard = true → o ∈ d'.record := by
  intro o ho _
  rw [h.record]
  exact List.mem_append_right _ ho

end Desk

namespace Runner

theorem suits_smooth : Suits (Keeping Desk.Smooth) where
  slot slot := Desk.suits_keeping (fun _ _ h => ⟨h.faults, h.serves, h.record⟩)
    (fun _ h => h.load slot) fun content _ h => h.save slot content
  hook := by
    rintro d _ ⟨rfl, h⟩ c
    exact ⟨rfl, h.note not_false⟩
  pause := by
    rintro d _ ⟨rfl, h⟩
    exact ⟨rfl, h.note not_false⟩

theorem Reaches.mem_record {σ : Type} {o : Observer σ} {s s' : Stage σ} {n : ℕ}
    {w : List Occurrence} (h : Reaches o s n w s') :
    ∀ x ∈ w, x.isUnheard = true → x ∈ s'.desk.record := by
  intro x hx hunheard
  have hmem : x ∈ w.filter Occurrence.isUnheard := List.mem_filter.2 ⟨hx, hunheard⟩
  rw [← o.filter_hear (fun _ => rfl) w s.observer] at hmem
  rw [h.record]
  exact List.mem_append_right _ (List.mem_of_mem_filter hmem)

theorem smooth_confirmPayment {σ : Type} (o : Observer σ) (id : String) {s : Stage σ}
    (h : s.desk.Smooth) : ((confirmPayment o id).run s).2.desk.Smooth :=
  (respects_confirmPayment suits_smooth o id ⟨⟨rfl, h⟩, rfl⟩).2.1.2

end Runner

theorem Ledger.read_of_smooth {l : Ledger α} {slot : Slot} (hl : l.key = slot.key)
    (h : d.Smooth) :
    ∃ q, l.read.run d = (.ok (l.records d.backing), q) ∧ q.backing = d.backing := by
  have hsuits : Desk.Suits (Keeping Desk.Smooth) l.key := hl ▸ Runner.suits_smooth.slot slot
  have hsmooth := respects_keeping.1 (respects_read hsuits) d h
  rcases l.read_cases d with ⟨f, q, hread, hq, -⟩ | ⟨q, hread, -, hb⟩
  · rw [hread] at hsmooth
    have hw : Ledger.Failed l.key f [.loadFailed l.key f] := .unread
    exact (hsmooth.not_failed hw hq.mem_record).elim
  · exact ⟨q, hread, hb⟩

theorem Ledger.clear_of_smooth {l : Ledger α} {slot : Slot} (hl : l.key = slot.key)
    (h : d.Smooth) : ∃ q, l.clear.run d = (.ok (), q) := by
  have hsmooth := h.save slot (l.format.encode [])
  rw [← hl] at hsmooth
  have hsmooth : (l.clear.run d).2.Smooth := hsmooth
  rcases l.clear_cases d with ⟨f, q, hclear, hq, -⟩ | ⟨q, hclear, -⟩
  · rw [hclear] at hsmooth
    exact (hsmooth.record (.saveFailed l.key f) (by simp [hq.record]) trivial).elim
  · exact ⟨q, hclear⟩

namespace Payments

/-- There is something to settle when the first session with the id is pending. -/
theorem settleFirst_ne_none_iff {id : String} {status : Status} {sessions : List Session} :
    (settleFirst id status sessions).1 ≠ none ↔
      ∃ s, sessions.find? (·.id = id) = some s ∧ s.status = .pending := by
  induction sessions with
  | nil => simp [settleFirst]
  | cons s rest ih =>
    by_cases hid : s.id = id
    · by_cases hs : s.status = .pending <;>
        simp [settleFirst, hid, Session.settle?, Session.isPending, hs]
    · simpa [settleFirst, hid] using ih

end Payments

/-! ### What a command comes to -/

namespace Command

/-- The commands that only look. -/
def readsOnly : Command → Bool
  | .plan _ | .debug _ _ | .presets | .listEvents | .listSessions => true
  | _ => false

/-- What it takes for a command to succeed. -/
def Accepts (content : Except FileError ByteArray) (b : Backing) : Command → Prop
  | .run source _ | .debug source _ =>
    ∃ script, source.load content = .ok script ∧ Text.allBlank script = false
  | .plan source => ∃ script, source.load content = .ok script
  | .confirm id | .fail id =>
    ∃ s, (Payments.ledger.records b).find? (·.id = id) = some s ∧ s.status = .pending
  | .presets | .listEvents | .clearEvents | .listSessions | .clearSessions => True

/-- How a command may end at the desk `d`. -/
inductive Ends (c : Command) (content : Except FileError ByteArray) (d : Desk) :
    Reply × Desk → Prop
  | refused {r : Reply} {q : Desk} (hc : ¬ c.Accepts content d.backing)
    (hr : r.error.isSome = true) (hb : q.backing = d.backing) : Ends c content d (r, q)
  | accepted {r : Reply} {q : Desk} (hc : c.Accepts content d.backing) (hr : r.error = none)
    (hb : c.readsOnly = true → q.backing = d.backing) : Ends c content d (r, q)

theorem reply_of_ok {action : Action α} {a : α} {q : Desk} (h : action.run d = (.ok a, q))
    (use : α → Reply) : reply action use d = (use a, q) := by
  rw [reply, bind_apply, h]
  rfl

theorem ends_list (c : Command) {content : Except FileError ByteArray} {l : Ledger α} (slot : Slot)
    (hc : c.Accepts content d.backing) (hl : l.key = slot.key) (h : d.Smooth)
    (arrange : List α → List α) (use : List α → Reply) (huse : ∀ as, (use as).error = none) :
    c.Ends content d (reply (do return arrange (← l.read)) use d) := by
  obtain ⟨q, hread, hb⟩ := Ledger.read_of_smooth hl h
  have hlist : (do return arrange (← l.read) : Action (List α)).run d =
      (.ok (arrange (l.records d.backing)), q) := run_bind_of_ok hread _
  rw [reply_of_ok hlist]
  exact .accepted hc (huse _) fun _ => hb

theorem ends_clear (c : Command) {content : Except FileError ByteArray} {l : Ledger α}
    (slot : Slot) (hc : c.Accepts content d.backing) (hw : c.readsOnly = false)
    (hl : l.key = slot.key) (h : d.Smooth) :
    c.Ends content d (reply l.clear (fun _ => .succeed "") d) := by
  obtain ⟨q, hclear⟩ := Ledger.clear_of_smooth hl h
  rw [reply_of_ok hclear]
  exact .accepted hc rfl fun hr => absurd hr (by simp [hw])

theorem ends_fail (content : Except FileError ByteArray) (h : d.Smooth) (id : String) :
    (fail id).Ends content d (perform content (.fail id) d) := by
  have hupdate := Payments.ledger.updates_update (Payments.settleFirst id .failed) d
  have hsmooth := respects_keeping.1 (Ledger.respects_update Runner.suits_smooth.payments
    (Payments.settleFirst id .failed)) d h
  have hperform : perform content (.fail id) = reply (Payments.fail id) _ := rfl
  rcases hfail : (Payments.fail id).run d with ⟨r, q⟩
  have hrun : (Payments.ledger.update (Payments.settleFirst id .failed)).run d = (r, q) := hfail
  rw [hrun] at hupdate hsmooth
  rw [hperform]
  cases hupdate with
  | failed hw hq => exact (hsmooth.not_failed hw hq.mem_record).elim
  | unchanged hc hq hb =>
    rw [reply_of_ok hfail]
    exact .refused (fun hs => Payments.settleFirst_ne_none_iff.2 hs hc) rfl hb
  | saved hc hq hb =>
    rw [reply_of_ok hfail]
    exact .accepted (Payments.settleFirst_ne_none_iff.1 (by rw [hc]; simp)) rfl nofun

theorem ends_confirm (content : Except FileError ByteArray) (h : d.Smooth) (id : String) :
    (confirm id).Ends content d (perform content (.confirm id) d) := by
  have hconfirms := Runner.confirms_confirmPayment Console.observer id ⟨d, Console.fresh []⟩
  have hsmooth := Runner.smooth_confirmPayment Console.observer id (s := ⟨d, Console.fresh []⟩) h
  rcases hrun : (Runner.confirmPayment Console.observer id).run ⟨d, Console.fresh []⟩ with ⟨r, s⟩
  have hconsole : onConsole (Runner.confirmPayment Console.observer id).run d = (r, s.desk) := by
    rw [onConsole, hrun]
  have hperform : perform content (.confirm id) = confirmSession id := rfl
  rw [hrun] at hconfirms hsmooth
  rw [hperform, confirmSession, bind_apply, hconsole]
  cases hconfirms with
  | failed hw hr =>
    exact (hsmooth.not_failed hw fun o ho => hr.mem_record o (by simp [ho])).elim
  | half hc hw hr =>
    exact (hsmooth.not_failed hw fun o ho => hr.mem_record o (by simp [ho])).elim
  | refused hc hr hb =>
    exact .refused (fun hs => Payments.settleFirst_ne_none_iff.2 hs hc) rfl hb
  | confirmed hc hr =>
    exact .accepted (Payments.settleFirst_ne_none_iff.1 (by rw [hc]; simp)) rfl nofun

/-- A script is loaded, and then it is used if there is anything in it. -/
theorem ends_script {c : Command} {content : Except FileError ByteArray} {source : Source}
    (hc : c.Accepts content d.backing ↔
      ∃ script, source.load content = .ok script ∧ Text.allBlank script = false)
    (what : String) {use : String → StateM Desk Reply}
    (hr : ∀ script, (use script d).1.error = none)
    (hb : c.readsOnly = true → ∀ script, (use script d).2.backing = d.backing) :
    c.Ends content d ((do
      match source.load content with
      | .error e => return .failed e
      | .ok script => if Text.allBlank script then return empty what else use script :
        StateM Desk Reply) d) := by
  rcases hload : source.load content with e | script
  · refine .refused (fun ha => ?_) rfl rfl
    obtain ⟨script, hok, -⟩ := hc.1 ha
    rw [hload] at hok
    cases hok
  · rcases hblank : Text.allBlank script with _ | _
    · simp only [hblank]
      exact .accepted (hc.2 ⟨script, hload, hblank⟩) (hr script) fun ho => hb ho script
    · simp only [hblank]
      refine .refused (fun ha => ?_) rfl rfl
      obtain ⟨script', hok, hnot⟩ := hc.1 ha
      rw [hload] at hok
      cases hok
      rw [hblank] at hnot
      cases hnot

theorem error_runScript (script : String) (d : Desk) : (runScript script d).1.error = none := by
  unfold runScript
  generalize onConsole (Runner.run Console.observer [] script) = work
  rfl

theorem ends_perform (c : Command) (content : Except FileError ByteArray) (h : d.Smooth) :
    c.Ends content d (c.perform content d) := by
  cases c with
  | run source delay => exact ends_script .rfl "run" (fun script => error_runScript script d) nofun
  | plan source =>
    simp only [perform]
    rcases hload : source.load content with e | script
    · refine .refused ?_ rfl rfl
      rintro ⟨script, hok⟩
      rw [hload] at hok
      cases hok
    · exact .accepted ⟨script, hload⟩ rfl fun _ => rfl
  | debug source error => exact ends_script .rfl "debug" (fun _ => rfl) fun _ _ => rfl
  | presets => exact .accepted trivial rfl fun _ => rfl
  | listEvents => exact ends_list .listEvents .chain trivial rfl h _ _ fun _ => rfl
  | clearEvents => exact ends_clear .clearEvents .chain trivial rfl rfl h
  | listSessions => exact ends_list .listSessions .payments trivial rfl h _ _ fun _ => rfl
  | confirm id => exact ends_confirm content h id
  | fail id => exact ends_fail content h id
  | clearSessions => exact ends_clear .clearSessions .payments trivial rfl rfl h

end Command

end PageScript
