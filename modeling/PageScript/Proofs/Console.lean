import PageScript.Console
import PageScript.Proofs.Runner.Observed

/-!
# What the console prints

Whatever the console is told, it prints something more and forgets nothing of what it printed
(`Console.prints_hear`).  When no line is broken, the lock of pages is printed with its price as
long as that can be shown (`Console.prints_lockPages`).
-/

namespace PageScript

namespace Observer

variable {σ : Type}

theorem answer_of_ok {o : Observer σ} {call : HookCall} {t t' : σ}
    (h : o.respond call t = (.ok (), t')) : o.answer call t = ([call], t') := by
  rw [answer, h]

/-- An observer that is told something responds to it, and perhaps to its own refusal. -/
theorem answer_cases (o : Observer σ) (call : HookCall) (t : σ) :
    (o.answer call t).2 = (o.respond call t).2 ∨
      ∃ reason, (o.answer call t).2 =
        (o.respond (call.refusal reason) (o.respond call t).2).2 := by
  rw [answer]
  rcases o.respond call t with ⟨reason | _, t'⟩
  · dsimp only
    split_ifs
    · exact .inl rfl
    · exact .inr ⟨reason, rfl⟩
  · exact .inl rfl

end Observer

namespace Console

variable {c c' c'' : Console}

/-- The console `c'` is `c` after it printed `more`; which lines are broken stays the same. -/
structure Prints (c : Console) (more : String) (c' : Console) : Prop where
  output : c'.output = c.output ++ more
  broken : c'.broken = c.broken

theorem Prints.refl (c : Console) : c.Prints "" c :=
  ⟨by simp, rfl⟩

theorem Prints.trans {more more' : String} (h : c.Prints more c') (h' : c'.Prints more' c'') :
    c.Prints (more ++ more') c'' :=
  ⟨by rw [h'.output, h.output, String.append_assoc], h'.broken.trans h.broken⟩

theorem prints_println (line : String) (c : Console) :
    ∃ more, c.Prints more (println line c).2 := by
  simp only [println]
  split_ifs
  · exact ⟨"", by simp, rfl⟩
  · exact ⟨"> " ++ line ++ "\n", by simp [String.append_assoc], rfl⟩

/-- A line is printed when none is broken. -/
theorem println_of_intact (line : String) (h : c.broken = []) :
    ∃ c', println line c = (.ok (), c') ∧ c.Prints ("> " ++ line ++ "\n") c' := by
  simp only [println, h, List.not_mem_nil, if_false]
  exact ⟨_, rfl, by simp [String.append_assoc], h.symm⟩

theorem prints_apply (effect : Applied) (line : String) (c : Console) :
    ∃ more, c.Prints more (apply effect line c).2 := by
  obtain ⟨more, h⟩ := prints_println ("EFFECT APPLIED: " ++ line)
    { c with applied := effect :: c.applied }
  exact ⟨more, h.output, h.broken⟩

theorem prints_respond (call : HookCall) (c : Console) :
    ∃ more, c.Prints more (observer.respond call c).2 := by
  cases call with
  | log message => exact prints_println _ c
  | watermark | highlight | mintNft => exact prints_apply _ _ c
  | lockPages pages price =>
    simp only [observer, respond]
    split_ifs
    · exact ⟨_, .refl c⟩
    · exact prints_apply _ _ c

theorem prints_answer (call : HookCall) (c : Console) :
    ∃ more, c.Prints more (observer.answer call c).2 := by
  obtain ⟨more, h⟩ := prints_respond call c
  rcases observer.answer_cases call c with heq | ⟨reason, heq⟩
  · rw [heq]
    exact ⟨more, h⟩
  · obtain ⟨more', h'⟩ := prints_respond (call.refusal reason) (observer.respond call c).2
    rw [heq]
    exact ⟨_, h.trans h'⟩

theorem prints_hear (w : List Occurrence) (c : Console) :
    ∃ more, c.Prints more (observer.hear w c).2 := by
  induction w generalizing c with
  | nil => exact ⟨_, .refl c⟩
  | cons x w ih =>
    cases x with
    | hook call =>
      obtain ⟨more, h⟩ := prints_answer call c
      obtain ⟨more', h'⟩ := ih (observer.answer call c).2
      exact ⟨_, h.trans h'⟩
    | loaded | loadFailed | saved | saveFailed | pause => exact ih c

theorem prints_log (message : String) (h : c.broken = []) :
    c.Prints ("> " ++ message ++ "\n") (observer.answer (.log message) c).2 := by
  obtain ⟨c', hprintln, hprints⟩ := println_of_intact message h
  rw [Observer.answer_of_ok hprintln]
  exact hprints

/-- The lock of pages is printed, with its price, and without one as if it were free. -/
theorem prints_lockPages (pages : List UInt32) {price : Option UInt64} (h : c.broken = [])
    (hprice : (price.getD 0).toNat ≤ greatestPrice) :
    c.Prints ("> EFFECT APPLIED: " ++ describeLock pages (price.getD 0).toNat ++ "\n")
      (observer.answer (.lockPages pages price) c).2 := by
  have hrespond : observer.respond (.lockPages pages price) c =
      apply (.lockPages pages price) (describeLock pages (price.getD 0).toNat) c := by
    simp only [observer, respond, if_neg hprice.not_gt]
  have hintact : { c with applied := .lockPages pages price :: c.applied }.broken = [] := h
  obtain ⟨c', hprintln, hprints⟩ :=
    println_of_intact ("EFFECT APPLIED: " ++ describeLock pages (price.getD 0).toNat) hintact
  have hprompt : "> " ++ "EFFECT APPLIED: " = "> EFFECT APPLIED: " := by decide
  rw [← String.append_assoc, hprompt] at hprints
  rw [Observer.answer_of_ok (hrespond.trans hprintln)]
  exact ⟨hprints.output, hprints.broken⟩

theorem line_describeLock (pages : List UInt32) (cents : ℕ) :
    "> EFFECT APPLIED: " ++ describeLock pages cents =
      "> EFFECT APPLIED: Locked pages [" ++
        ", ".intercalate (pages.map fun p => Numeral.text p.toNat) ++ "] for $" ++
          dollars cents := by
  have hprefix : "> EFFECT APPLIED: " ++ "Locked pages [" =
      "> EFFECT APPLIED: Locked pages [" := by
    decide +kernel
  rw [← hprefix]
  delta describeLock
  simp only [String.append_assoc]

end Console

end PageScript
