import PageScript.Proofs.Console

/-!
# What the effects panel shows

A call on the console is refused for its price, or fails at a line that cannot be printed, or
prints one entry (`Console.Call.ends_perform`).  So the output has the entries of the calls that
succeeded.  The panel has the effects of those, the newest first, and among them the effects whose
line could not be printed: these are put onto it before the line is tried, and stay there although
the call fails (`Console.unprinted_effect_stays`).  It shows what reached the console just when no
effect failed in this way (`Console.panel_of_calls`).
-/

namespace PageScript

open Json

namespace Console

/-- A call on the console: a line to print, or a hook. -/
inductive Call where
  | println (line : String)
  | hook (call : HookCall)

namespace Call

def perform : Call → StateM Console (Except String Unit)
  | .println line => Console.println line
  | .hook call => respond call

/-- The document effect of a call. -/
def effect? : Call → Option Applied
  | .println _ | .hook (.log _) => none
  | .hook (.watermark page text) => some (.watermark page text)
  | .hook (.highlight text) => some (.highlight text)
  | .hook (.lockPages pages price) => some (.lockPages pages price)
  | .hook (.mintNft metadata) => some (.mintNft metadata)

def line : Call → String
  | .println line | .hook (.log line) => line
  | .hook (.watermark page text) =>
    "EFFECT APPLIED: " ++
      ("Watermark on page " ++ Numeral.text page.toNat ++ " with text \"" ++ text ++ "\"")
  | .hook (.highlight text) => "EFFECT APPLIED: " ++ ("Highlight text \"" ++ text ++ "\"")
  | .hook (.lockPages pages price) =>
    "EFFECT APPLIED: " ++ describeLock pages (price.getD 0).toNat
  | .hook (.mintNft metadata) =>
    "EFFECT APPLIED: " ++ ("Minted NFT with metadata: " ++ (Value.object metadata).compact)

/-- What is printed by a call that succeeds. -/
def entry (call : Call) : String :=
  "> " ++ call.line ++ "\n"

theorem entry_of_effect {call : Call} {e : Applied} (h : call.effect? = some e) :
    ∃ text, call.entry = "> EFFECT APPLIED: " ++ text ++ "\n" := by
  have hprompt : "> EFFECT APPLIED: " = "> " ++ "EFFECT APPLIED: " := by decide
  have hline : ∃ text, call.line = "EFFECT APPLIED: " ++ text := by
    cases call with
    | println => cases h
    | hook call =>
      cases call with
      | log => cases h
      | watermark | highlight | lockPages | mintNft => exact ⟨_, rfl⟩
  obtain ⟨text, hline⟩ := hline
  exact ⟨text, by rw [entry, hline, hprompt, ← String.append_assoc]⟩

/-- That the price of a lock is too great to be shown. -/
inductive Overpriced : Call → Prop
  | lock {pages : List UInt32} {price : Option UInt64}
    (h : greatestPrice < (price.getD 0).toNat) : Overpriced (.hook (.lockPages pages price))

theorem Overpriced.lt {pages : List UInt32} {price : Option UInt64}
    (h : Overpriced (.hook (.lockPages pages price))) : greatestPrice < (price.getD 0).toNat := by
  cases h with
  | lock h => exact h

/-- How a call on the console `c` may end. -/
inductive Ends (call : Call) (c : Console) : Except String Unit × Console → Prop
  | refused (h : call.Overpriced) :
    Ends call c (.error "number too large to fit in target type", c)
  | closed (h : ¬call.Overpriced) (hline : c.asked + 1 ∈ c.broken) : Ends call c
    (.error "console closed",
      { c with asked := c.asked + 1, applied := call.effect?.toList ++ c.applied })
  | printed (h : ¬call.Overpriced) (hline : c.asked + 1 ∉ c.broken) : Ends call c
    (.ok (), { c with
      asked := c.asked + 1
      output := c.output ++ call.entry
      applied := call.effect?.toList ++ c.applied })

/-- The effect goes onto the panel before the line is tried. -/
theorem ends_println (call : Call) (h : ¬call.Overpriced) (c : Console) :
    call.Ends c
      (Console.println call.line { c with applied := call.effect?.toList ++ c.applied }) := by
  by_cases hline : c.asked + 1 ∈ c.broken
  · simp only [Console.println, if_pos hline]
    exact .closed h hline
  · have houtput : c.output ++ "> " ++ call.line ++ "\n" = c.output ++ call.entry := by
      simp only [entry, String.append_assoc]
    simp only [Console.println, if_neg hline, houtput]
    exact .printed h hline

theorem ends_perform (call : Call) (c : Console) : call.Ends c (call.perform c) := by
  cases call with
  | println line => exact ends_println (.println line) nofun c
  | hook call =>
    cases call with
    | log message => exact ends_println (.hook (.log message)) nofun c
    | watermark page text => exact ends_println (.hook (.watermark page text)) nofun c
    | highlight text => exact ends_println (.hook (.highlight text)) nofun c
    | mintNft metadata => exact ends_println (.hook (.mintNft metadata)) nofun c
    | lockPages pages price =>
      simp only [perform, respond]
      split_ifs with hprice
      · exact .refused (.lock hprice)
      · exact ends_println (.hook (.lockPages pages price)) (fun h => hprice h.lt) c

theorem succeeds_iff (call : Call) (c : Console) :
    (call.perform c).1 = .ok () ↔ ¬call.Overpriced ∧ c.asked + 1 ∉ c.broken := by
  have hend := call.ends_perform c
  generalize call.perform c = x at hend ⊢
  cases hend with
  | refused h => exact ⟨nofun, fun hok => absurd h hok.1⟩
  | closed _ hline => exact ⟨nofun, fun hok => absurd hline hok.2⟩
  | printed h hline => exact ⟨fun _ => ⟨h, hline⟩, fun _ => rfl⟩

/-- What a call with this result printed. -/
def printed? (call : Call) : Except String Unit → Option String
  | .ok () => some call.entry
  | .error _ => none

/-- The effect of a call that succeeded. -/
def confirmed? (call : Call) : Except String Unit → Option Applied
  | .ok () => call.effect?
  | .error _ => none

/-- The effect that a call with this result put onto the panel. -/
def placed? (call : Call) : Except String Unit → Option Applied
  | .ok () => call.effect?
  | .error reason => if reason = "console closed" then call.effect? else none

/-- That a document effect failed at its line. -/
def Unprinted (call : Call) (r : Except String Unit) : Prop :=
  r = .error "console closed" ∧ call.effect? ≠ none

theorem perform_eq (call : Call) (c : Console) :
    (call.perform c).2.output = c.output ++ ((call.printed? (call.perform c).1).getD "") ∧
      (call.perform c).2.applied = (call.placed? (call.perform c).1).toList ++ c.applied := by
  have hend := call.ends_perform c
  generalize call.perform c = x at hend ⊢
  cases hend with
  | refused =>
    exact ⟨String.append_empty.symm, by rw [placed?, if_neg (by decide)]; rfl⟩
  | closed => exact ⟨String.append_empty.symm, by rw [placed?, if_pos rfl]⟩
  | printed => exact ⟨rfl, rfl⟩

theorem placed?_eq_confirmed?_iff (call : Call) (r : Except String Unit) :
    call.placed? r = call.confirmed? r ↔ ¬call.Unprinted r := by
  rcases r with reason | _
  · by_cases hreason : reason = "console closed"
    · simp [confirmed?, placed?, Unprinted, hreason, eq_comm]
    · simp [confirmed?, placed?, Unprinted, hreason]
  · simp [confirmed?, placed?, Unprinted]

/-- A call that failed leaves the panel as it was unless it did so at its line. -/
theorem failed {call : Call} {c q : Console} {reason : String}
    (h : call.perform c = (.error reason, q)) :
    q.output = c.output ∧ (q.applied = c.applied ↔ ¬call.Unprinted (.error reason)) := by
  obtain ⟨houtput, happlied⟩ := call.perform_eq c
  rw [h] at houtput happlied
  refine ⟨houtput.trans String.append_empty, ?_⟩
  rw [happlied, List.append_left_eq_self, Option.toList_eq_nil_iff]
  exact call.placed?_eq_confirmed?_iff (.error reason)

end Call

/-- Calls one after the other, with their results. -/
inductive Calls : Console → List (Call × Except String Unit) → Console → Prop
  | none (c : Console) : Calls c [] c
  | next {call : Call} {r : Except String Unit} {c q c' : Console}
    {log : List (Call × Except String Unit)} (h : call.perform c = (r, q))
    (hrest : Calls q log c') : Calls c ((call, r) :: log) c'

/-- What the calls printed. -/
def allPrinted (log : List (Call × Except String Unit)) : List String :=
  log.filterMap fun x => x.1.printed? x.2

/-- The effects of the calls that succeeded. -/
def allConfirmed (log : List (Call × Except String Unit)) : List Applied :=
  log.filterMap fun x => x.1.confirmed? x.2

/-- The effects that the calls put onto the panel. -/
def allPlaced (log : List (Call × Except String Unit)) : List Applied :=
  log.filterMap fun x => x.1.placed? x.2

section Calls

variable {c c' : Console} {log : List (Call × Except String Unit)}

/-- The console before and after one of the calls. -/
theorem Calls.split {call : Call} {r : Except String Unit}
    {before after : List (Call × Except String Unit)}
    (h : Calls c (before ++ (call, r) :: after) c') :
    ∃ q q', Calls c before q ∧ call.perform q = (r, q') ∧ Calls q' after c' := by
  induction before generalizing c with
  | nil =>
    cases h with
    | next h hrest => exact ⟨c, _, .none c, h, hrest⟩
  | cons x before ih =>
    cases h with
    | next h hrest =>
      obtain ⟨q, q', hbefore, hcall, hafter⟩ := ih hrest
      exact ⟨q, q', .next h hbefore, hcall, hafter⟩

theorem Calls.output (h : Calls c log c') :
    c'.output = c.output ++ String.join (allPrinted log) := by
  induction h with
  | none c => exact String.append_empty.symm
  | @next call r c q c' log h _ ih =>
    have houtput : q.output = c.output ++ (call.printed? r).getD "" := by
      simpa only [h] using (call.perform_eq c).1
    rw [ih, houtput, String.append_assoc]
    rcases hr : call.printed? r <;> simp [allPrinted, hr]

theorem Calls.applied (h : Calls c log c') :
    c'.applied = (allPlaced log).reverse ++ c.applied := by
  induction h with
  | none c => rfl
  | @next call r c q c' log h _ ih =>
    have happlied : q.applied = (call.placed? r).toList ++ c.applied := by
      simpa only [h] using (call.perform_eq c).2
    rw [ih, happlied, ← List.append_assoc]
    rcases hr : call.placed? r <;> simp [allPlaced, hr]

theorem length_allConfirmed_le (log : List (Call × Except String Unit)) :
    (allConfirmed log).length ≤ (allPlaced log).length := by
  rw [allConfirmed, allPlaced, List.length_filterMap_eq_countP, List.length_filterMap_eq_countP]
  refine List.countP_mono_left fun x _ hx => ?_
  rcases x with ⟨call, reason | _⟩
  · cases hx
  · exact hx

/-- The effects put onto the panel are those of the calls that succeeded just when none failed at
its line. -/
theorem allPlaced_eq_allConfirmed_iff (log : List (Call × Except String Unit)) :
    allPlaced log = allConfirmed log ↔ ∀ x ∈ log, ¬x.1.Unprinted x.2 := by
  refine ⟨fun h => ?_, fun h => ?_⟩
  · induction log with
    | nil => exact List.forall_mem_nil _
    | cons x log ih =>
      have hx : ¬x.1.Unprinted x.2 := by
        -- An effect that failed would make the panel longer.
        rintro ⟨hreason, heffect⟩
        obtain ⟨e, he⟩ := Option.ne_none_iff_exists'.1 heffect
        have hlength := length_allConfirmed_le log
        have heq : e :: allPlaced log = allConfirmed log := by
          simpa [allPlaced, allConfirmed, Call.placed?, Call.confirmed?, hreason, he] using h
        rw [← heq, List.length_cons] at hlength
        omega
      refine List.forall_mem_cons.2 ⟨hx, ih ?_⟩
      have hsame := (x.1.placed?_eq_confirmed?_iff x.2).2 hx
      rcases hp : x.1.placed? x.2 with _ | e <;>
        simpa [allPlaced, allConfirmed, hp, ← hsame] using h
  · exact List.filterMap_congr fun x hx => (x.1.placed?_eq_confirmed?_iff x.2).2 (h x hx)

/-- What is left on a console by calls, with which results they ended. -/
structure Shows (c : Console) (log : List (Call × Except String Unit)) (c' : Console) : Prop where
  /-- A call succeeded just when its price could be shown and its line be printed. -/
  succeeded : ∀ before call r after, log = before ++ (call, r) :: after →
    ∃ q, Calls c before q ∧ (r = .ok () ↔ ¬call.Overpriced ∧ q.asked + 1 ∉ q.broken)
  /-- Every call that succeeded printed one entry, and no other call printed anything. -/
  output : c'.output = c.output ++ String.join (allPrinted log)
  /-- A document effect that was applied has an entry that says so. -/
  entries : ∀ x ∈ log, ∀ e, x.1.confirmed? x.2 = some e →
    ∃ text, x.1.printed? x.2 = some ("> EFFECT APPLIED: " ++ text ++ "\n")
  /-- The panel has the effects that succeeded and those that failed at their line. -/
  applied : c'.applied = (allPlaced log).reverse ++ c.applied
  applied_iff : c'.applied = (allConfirmed log).reverse ++ c.applied ↔
    ∀ x ∈ log, ¬x.1.Unprinted x.2
  /-- A call that failed left the output as it was, and the panel too unless it did so at its
  line. -/
  failed : ∀ before call reason after, log = before ++ (call, .error reason) :: after →
    ∃ q q', Calls c before q ∧ call.perform q = (.error reason, q') ∧ Calls q' after c' ∧
      q'.output = q.output ∧ (q'.applied = q.applied ↔ ¬call.Unprinted (.error reason))

/-- After any calls on a console, whichever lines are broken, the panel shows what reached the
output just when no document effect failed at its line. -/
theorem panel_of_calls (h : Calls c log c') : Shows c log c' where
  succeeded := by
    rintro before call r after rfl
    obtain ⟨q, q', hbefore, hcall, -⟩ := h.split
    exact ⟨q, hbefore, by rw [← call.succeeds_iff q, hcall]⟩
  output := h.output
  entries := by
    rintro ⟨call, reason | _⟩ - e he
    · cases he
    · obtain ⟨text, hentry⟩ := Call.entry_of_effect he
      exact ⟨text, congrArg some hentry⟩
  applied := h.applied
  applied_iff := by
    rw [h.applied, List.append_left_inj, List.reverse_inj]
    exact allPlaced_eq_allConfirmed_iff log
  failed := by
    rintro before call reason after rfl
    obtain ⟨q, q', hbefore, hcall, hafter⟩ := h.split
    exact ⟨q, q', hbefore, hcall, hafter, Call.failed hcall⟩

theorem panel_of_calls_closed :
    let mark : Call := .hook (.watermark 1 "DRAFT")
    let clause : Call := .hook (.highlight "clause")
    let log := [(clause, .ok ()), (mark, .error "console closed")]
    ∃ c, Calls (fresh [2]) log c ∧ Shows (fresh [2]) log c ∧
      c.output = "> EFFECT APPLIED: Highlight text \"clause\"\n" ∧
      c.applied = [.watermark 1 "DRAFT", .highlight "clause"] := by
  intro mark clause log
  have h : Calls (fresh [2]) log _ := .next rfl (.next rfl (.none _))
  exact ⟨_, h, panel_of_calls h, by decide, rfl⟩

/-- An effect is on the panel although its call failed and nothing was printed. -/
theorem unprinted_effect_stays :
    let log : List (Call × Except String Unit) :=
      [(.hook (.watermark 1 "DRAFT"), .error "console closed")]
    ∃ c, Calls (fresh [1]) log c ∧ c.output = "" ∧ allConfirmed log = [] ∧
      c.applied = [.watermark 1 "DRAFT"] :=
  ⟨_, .next rfl (.none _), rfl, rfl, rfl⟩

end Calls

end Console

end PageScript
