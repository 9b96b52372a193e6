import PageScript.Proofs.Charged

/-!
# What a lock is said to cost

The console shows the price of a lock in dollars, and the session that the lock opens has the same
price in cents (`Runner.lock_shown_as_charged`).  That is so for every plan as long as the lock
names a price.  A lock that names none is shown as if it were free, and charged all the same
(`Runner.lock_shown_free`).
-/

namespace PageScript

open Script

namespace Console

/-- The text is a decimal number of dollars which comes to so many cents. -/
def Denotes (shown : String) (cents : ℕ) : Prop :=
  ∃ w : Price.Written, shown.toList = w.whole ++ '.' :: w.fraction ∧
    (∀ c ∈ w.whole, c.isDigit = true) ∧ (∀ c ∈ w.fraction, c.isDigit = true) ∧
      100 * w.dollars = cents

theorem toList_dollars (cents : ℕ) :
    (dollars cents).toList =
      (Price.printed cents).whole ++ '.' :: (Price.printed cents).fraction := by
  delta dollars Price.printed
  simp only [String.toList_append, Numeral.toList_text, List.append_assoc]
  rfl

/-- The dollars that are shown come to the cents that they are made of, and to no others. -/
theorem denotes_dollars_iff {shown cents : ℕ} : Denotes (dollars shown) cents ↔ shown = cents := by
  have hwhole : ∀ c ∈ (Price.printed shown).whole, c.isDigit = true :=
    Numeral.isDigit_of_mem_digits _
  have hfraction : ∀ c ∈ (Price.printed shown).fraction, c.isDigit = true :=
    List.forall_mem_append.2 ⟨Numeral.isDigit_of_mem_digits _, Numeral.isDigit_of_mem_digits _⟩
  have hpoint (fraction : List Char) : ∀ c ∈ ('.' :: fraction).head?, c.isDigit = false := by
    rintro c ⟨⟩
    rfl
  have hcents : 100 * (Price.printed shown).dollars = shown := by
    rw [Price.dollars_printed]
    ring
  constructor
  · rintro ⟨⟨whole, fraction⟩, heq, hw, -, hdenotes⟩
    -- The point parts the digits in one way only.
    obtain ⟨htake, hdrop⟩ :=
      Text.takeWhile_dropWhile_iff.2 ⟨toList_dollars shown, hwhole, hpoint _⟩
    obtain ⟨htake', hdrop'⟩ := Text.takeWhile_dropWhile_iff.2 ⟨heq, hw, hpoint _⟩
    obtain rfl : (Price.printed shown).whole = whole := htake.symm.trans htake'
    obtain rfl : (Price.printed shown).fraction = fraction :=
      (List.cons.inj (hdrop.symm.trans hdrop')).2
    have hdenotes : 100 * (Price.printed shown).dollars = cents := hdenotes
    exact_mod_cast hcents.symm.trans hdenotes
  · rintro rfl
    exact ⟨Price.printed shown, toList_dollars shown, hwhole, hfraction, hcents⟩

end Console

namespace Runner

theorem prints_execute (plan : Plan) (s : Stage Console) :
    ∃ more, s.observer.Prints more (execute Console.observer plan s).2.observer := by
  obtain ⟨_, q, w, hexecute⟩ := uniform_execute plan s.desk
  have hs : execute Console.observer plan s = _ :=
    hexecute Console Console.observer s.observer s.desk.record
  rw [hs]
  exact Console.prints_hear w s.observer

theorem line_receipt (id : String) :
    "\n" ++ ("> " ++ ("Created mock payment session " ++ id ++ " for unlocking pages.") ++ "\n") =
      "\n> Created mock payment session " ++ id ++ " for unlocking pages.\n" := by
  have hstart : "\n" ++ ("> " ++ "Created mock payment session ") =
      "\n> Created mock payment session " := by
    decide +kernel
  have hend : " for unlocking pages." ++ "\n" = " for unlocking pages.\n" := by
    decide +kernel
  rw [← hstart, ← hend]
  simp only [String.append_assoc]

/-- A lock is shown and opens a session, whatever the plan around it.  The dollars that are shown
are what the session is about just when the lock names its price. -/
theorem lock_shown_as_charged {plan : Plan} {before after : List Effect} {pages : List UInt32}
    {price : Option UInt64} (hplan : plan.effects = before ++ .lockPages pages price :: after)
    (hprice : ∀ cents ∈ price, cents.toNat ≤ 9223372036854775807) (s : Stage Console)
    (hfaults : s.desk.faults = []) (hserves : ∀ slot : Slot, s.desk.backing.Serves slot.key)
    (hintact : s.observer.broken = []) :
    let s₀ := (execute Console.observer { plan with effects := before } s).2
    let s₁ := (step Console.observer (.lockPages pages price) s₀).2
    execute Console.observer plan s = (plan, (steps Console.observer after s₁).2) ∧
      ∃ (session : Session) (shown : String),
        s₁.desk.backing.load Payments.ledger.key = .ok (some (Session.format.encode
          (Payments.ledger.records s₀.desk.backing ++ [session]))) ∧
        session.status = .pending ∧ session.amountCents = price.getD 500 ∧
        s₁.observer.output = s₀.observer.output ++
          ("> EFFECT APPLIED: Locked pages [" ++
              ", ".intercalate (pages.map fun p => Numeral.text p.toNat) ++ "] for $" ++ shown ++
            "\n> Created mock payment session " ++ session.id ++ " for unlocking pages.\n") ∧
        (Console.Denotes shown session.amountCents.toNat ↔ price ≠ none) ∧
        (price = none → shown = "0.00") := by
  intro s₀ s₁
  refine ⟨execute_eq_of_effects Console.observer hplan s, ?_⟩
  -- The record may tell of failures in the past, but it makes no difference.
  let t : Stage Console := ⟨{ s.desk with record := [] }, s.observer⟩
  let first : Plan := { plan with effects := before }
  let upTo : Plan := { plan with effects := before ++ [.lockPages pages price] }
  let t₀ := (execute Console.observer first t).2
  have hbefore : s₀.observer = t₀.observer ∧ s₀.desk.backing = t₀.desk.backing :=
    execute_of_record Console.observer first s
  have hupTo (u : Stage Console) : (execute Console.observer upTo u).2 =
      (step Console.observer (.lockPages pages price) (execute Console.observer first u).2).2 := by
    have hend : upTo.effects = before ++ .lockPages pages price :: [] := rfl
    rw [execute_eq_of_effects Console.observer hend u]
    rfl
  have hafter := execute_of_record Console.observer upTo s
  rw [hupTo, hupTo] at hafter
  have hafter : s₁.observer = (step Console.observer (.lockPages pages price) t₀).2.observer ∧
      s₁.desk.backing = (step Console.observer (.lockPages pages price) t₀).2.desk.backing := hafter
  have hsmooth : t₀.desk.Smooth := by
    have ht : t.desk.Smooth := ⟨hfaults, hserves, List.forall_mem_nil _⟩
    exact (respects_execute suits_smooth Console.observer first ⟨⟨rfl, ht⟩, rfl⟩).2.1.2
  obtain ⟨more, hmore⟩ := prints_execute first t
  have hshown : (price.getD 0).toNat ≤ Console.greatestPrice := by
    rcases price with _ | cents
    · exact Nat.zero_le _
    · exact hprice cents rfl
  obtain ⟨session, hcents, hpending, hpayments, hprints⟩ :=
    step_lockPages (s := t₀) pages hsmooth (hmore.broken.trans hintact) hshown
  have hreceipt := line_receipt session.id
  refine ⟨session, Console.dollars (price.getD 0).toNat, ?_, hpending, hcents, ?_, ?_, ?_⟩
  · rw [hafter.2, hbefore.2, hpayments]
  · rw [hafter.1, hbefore.1, hprints.output, Console.line_describeLock]
    simp only [String.append_assoc] at hreceipt ⊢
    rw [hreceipt]
  · rw [Console.denotes_dollars_iff, hcents]
    rcases price with _ | cents
    · simp [Effect.defaultLockPrice]
    · simp
  · rintro rfl
    decide +kernel

theorem lock_shown_as_charged_cheap :
    let s : Stage Console := ⟨⟨.memory [], [], 0, .countingFrom 1, []⟩, .fresh []⟩
    let plan : Plan := ⟨true, [.log "first", .lockPages [7] (some 5)], none⟩
    let s₀ := (execute Console.observer { plan with effects := [.log "first"] } s).2
    let s₁ := (step Console.observer (.lockPages [7] (some 5)) s₀).2
    execute Console.observer plan s = (plan, s₁) ∧
      ∃ (session : Session) (shown : String), session.amountCents = 5 ∧
        Console.Denotes shown session.amountCents.toNat ∧
        s₁.observer.output = s₀.observer.output ++
          ("> EFFECT APPLIED: Locked pages [7] for $" ++ shown ++
            "\n> Created mock payment session " ++ session.id ++ " for unlocking pages.\n") := by
  intro s plan
  have hserves (slot : Slot) : s.desk.backing.Serves slot.key := Backing.serves_memory [] slot.key
  have hfaults : s.desk.faults = [] := rfl
  have hintact : s.observer.broken = [] := rfl
  have hplan : plan.effects = [.log "first"] ++ .lockPages [7] (some 5) :: [] := rfl
  have hprice : ∀ cents ∈ some (5 : UInt64), cents.toNat ≤ 9223372036854775807 := by
    rintro _ ⟨⟩
    decide
  -- From here on nothing more is known of the stage.
  clear_value s
  obtain ⟨hexecute, session, shown, -, -, hcents, houtput, hdenotes, -⟩ :=
    lock_shown_as_charged hplan hprice s hfaults hserves hintact
  have hpages : "> EFFECT APPLIED: Locked pages [" ++
      ", ".intercalate ([(7 : UInt32)].map fun p => Numeral.text p.toNat) ++ "] for $" =
        "> EFFECT APPLIED: Locked pages [7] for $" := by
    decide +kernel
  have hend (u : Stage Console) : (steps Console.observer [] u).2 = u := rfl
  rw [hpages] at houtput
  rw [hend] at hexecute
  dsimp only
  exact ⟨hexecute, session, shown, hcents, hdenotes.2 (Option.some_ne_none 5), houtput⟩

/-- What a lock without a price is shown as is not what is charged for it. -/
theorem lock_shown_free :
    (let s : Stage Console := ⟨⟨.memory [], [], 0, .countingFrom 1, []⟩, .fresh []⟩
      let s₁ := (execute Console.observer ⟨true, [.lockPages [2] none], none⟩ s).2
      s₁.observer.output = "> EFFECT APPLIED: Locked pages [2] for $0.00\n" ++
          "> Created mock payment session mockpay_0_00000000000040008000000000000001 for " ++
            "unlocking pages.\n" ∧
        (Payments.ledger.records s₁.desk.backing).map (·.amountCents) = [500]) ∧
      ¬ Console.Denotes "0.00" 500 := by
  constructor
  · decide +kernel
  · have hnothing : Console.dollars 0 = "0.00" := by decide +kernel
    rw [← hnothing, Console.denotes_dollars_iff]
    decide

end Runner

end PageScript
