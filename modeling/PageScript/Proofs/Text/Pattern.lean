import PageScript.Proofs.Text.Searched

/-!
# Patterns

A pattern tells what a stretch of text may look like.  `Pattern.ways` are the ways to read one at
the front of a text, in order of preference: an alternative comes before those after it, and a
character is repeated as often as possible when the repetition is greedy, and as seldom as possible
otherwise.  The preferred way at the first place that has one is what is found in a text
(`Pattern.find?`).

What follows a repetition may send it back, so that the way found is not the longest or the
shortest repetition alone: after a greedy repetition up to the end of the line, a pattern is read
at the last place on the line where it can be (`kept?_line_next`).
-/

namespace PageScript.Text

/-- Only single characters are repeated. -/
inductive Pattern where
  | nothing
  | one (p : Char → Bool)
  | next (a b : Pattern)
  | either (a b : Pattern)
  | many (greedy : Bool) (p : Char → Bool)
  /-- The text that `a` takes is kept under a number. -/
  | group (n : Nat) (a : Pattern)

/-- A way to read a pattern: the text it takes, what its groups keep, and what is left. -/
structure Way where
  taken : List Char
  groups : List (Nat × List Char)
  rest : List Char

namespace Way

def append (w v : Way) : Way := ⟨w.taken ++ v.taken, w.groups ++ v.groups, v.rest⟩

def keep (n : Nat) (w : Way) : Way := { w with groups := (n, w.taken) :: w.groups }

/-- What a group keeps, none if it was passed over. -/
def group? (w : Way) (n : Nat) : Option (List Char) := w.groups.lookup n

end Way

namespace Pattern

/-- What a repetition leaves, in order of preference. -/
@[grind =]
def repeats (greedy : Bool) (p : Char → Bool) : List Char → List Way
  | [] => [⟨[], [], []⟩]
  | c :: cs =>
    let fewest : Way := ⟨[], [], c :: cs⟩
    if p c then
      let more := (repeats greedy p cs).map fun w => { w with taken := c :: w.taken }
      if greedy then more ++ [fewest] else fewest :: more
    else [fewest]

@[grind =]
def ways : Pattern → List Char → List Way
  | .nothing, cs => [⟨[], [], cs⟩]
  | .one _, [] => []
  | .one p, c :: cs => if p c then [⟨[c], [], cs⟩] else []
  | .next a b, cs => (a.ways cs).flatMap fun w => (b.ways w.rest).map w.append
  | .either a b, cs => a.ways cs ++ b.ways cs
  | .many greedy p, cs => repeats greedy p cs
  | .group n a, cs => (a.ways cs).map (Way.keep n)

/-- The preferred way to read a pattern at the front of a text. -/
def first? (a : Pattern) (cs : List Char) : Option Way :=
  (a.ways cs).head?

/-- The preferred way at the first place in a text where there is one. -/
def find? (a : Pattern) : List Char → Option Way
  | [] => a.first? []
  | c :: cs => (a.first? (c :: cs)).or (find? a cs)

/-- The letters of a word, in any case. -/
def word (letters : List Char) : Pattern :=
  letters.foldr (fun letter a => .next (.one (isLetter letter)) a) .nothing

/-- The characters up to some place on the line, the last one that goes. -/
def line : Pattern := .many true (· != '\n')

/-- A pattern is read if it can be. -/
def optional (a : Pattern) : Pattern := .either a .nothing

/-- At least one such character, and as many as possible. -/
def run (p : Char → Bool) : Pattern := .next (.one p) (.many true p)

/-- What the groups keep in the preferred way, and what is left. -/
def kept? (a : Pattern) (cs : List Char) : Option (List (Nat × List Char) × List Char) :=
  (a.first? cs).map fun w => (w.groups, w.rest)

variable {p : Char → Bool} {b : Pattern}

theorem ways_next_assoc (a b c : Pattern) (cs : List Char) :
    (next (next a b) c).ways cs = (next a (next b c)).ways cs := by
  have happend (u v w : Way) : (u.append v).append w = u.append (v.append w) := by
    simp [Way.append]
  simp only [ways, List.flatMap_assoc, List.map_flatMap, List.flatMap_map, List.map_map,
    Function.comp_def, ← happend]
  rfl

theorem kept?_next_assoc (a b c : Pattern) (cs : List Char) :
    (next (next a b) c).kept? cs = (next a (next b c)).kept? cs := by
  rw [kept?, first?, ways_next_assoc]
  rfl

/-- A pattern is read with what comes before it in the first way to read that in which it can be. -/
theorem kept?_next (a b : Pattern) (cs : List Char) :
    (next a b).kept? cs =
      (a.ways cs).findSome? fun w => (b.kept? w.rest).map fun k => (w.groups ++ k.1, k.2) := by
  simp [kept?, first?, ways, List.head?_flatMap, List.map_findSome?, Way.append,
    Function.comp_def]

theorem kept?_one_next (p : Char → Bool) (b : Pattern) (c : Char) (cs : List Char) :
    (next (.one p) b).kept? (c :: cs) = if p c then b.kept? cs else none := by
  rw [kept?_next, ways]
  split_ifs <;> simp

/-- A word is read in one way. -/
theorem kept?_word_next (letters : List Char) (b : Pattern) (cs : List Char) :
    (next (word letters) b).kept? cs = (dropWord? letters cs).bind b.kept? := by
  induction letters generalizing cs with
  | nil => simp [word, kept?_next, ways, dropWord?]
  | cons letter letters ih =>
    have hcons : word (letter :: letters) = .next (.one (isLetter letter)) (word letters) := rfl
    rw [hcons, kept?_next_assoc]
    rcases cs with _ | ⟨c, cs⟩
    · rfl
    · rw [kept?_one_next, ih, dropWord?]
      split_ifs <;> rfl

theorem kept?_many_next_cons (b : Pattern) {c : Char} (hc : p c = true) (cs : List Char) :
    (next (.many true p) b).kept? (c :: cs) =
      ((next (.many true p) b).kept? cs).or (b.kept? (c :: cs)) := by
  simp [kept?_next, ways, repeats, hc, List.findSome?_append, List.findSome?_map,
    Function.comp_def]

theorem kept?_many_next_of_not (b : Pattern) {cs : List Char} (h : ∀ c ∈ cs.head?, p c = false) :
    (next (.many true p) b).kept? cs = b.kept? cs := by
  rcases cs with _ | ⟨c, cs⟩
  · simp [kept?_next, ways, repeats]
  · simp [kept?_next, ways, repeats, h c rfl]

/-- A greedy repetition takes all it can when what comes after it cannot begin within it. -/
theorem kept?_many_next (hb : ∀ c cs, p c = true → b.kept? (c :: cs) = none) (cs : List Char) :
    (next (.many true p) b).kept? cs = b.kept? (cs.dropWhile p) := by
  induction cs with
  | nil => exact kept?_many_next_of_not b (by simp)
  | cons c cs ih =>
    by_cases hc : p c = true
    · rw [kept?_many_next_cons b hc, hb c cs hc, ih, Option.or_none, List.dropWhile_cons_of_pos hc]
    · rw [kept?_many_next_of_not b (by simpa using hc), List.dropWhile_cons_of_neg hc]

theorem kept?_run_next (hb : ∀ c cs, p c = true → b.kept? (c :: cs) = none) (cs : List Char) :
    (next (run p) b).kept? cs =
      if (cs.takeWhile p).isEmpty then none else b.kept? (cs.dropWhile p) := by
  rw [run, kept?_next_assoc]
  rcases cs with _ | ⟨c, cs⟩
  · rfl
  · rw [kept?_one_next, kept?_many_next hb]
    by_cases hc : p c = true <;> simp [hc]

theorem first?_many (p : Char → Bool) (cs : List Char) :
    (many true p).first? cs = some ⟨cs.takeWhile p, [], cs.dropWhile p⟩ := by
  induction cs with
  | nil => rfl
  | cons c cs ih =>
    have ih : (repeats true p cs).head? = some ⟨cs.takeWhile p, [], cs.dropWhile p⟩ := ih
    by_cases hc : p c = true <;> simp [first?, ways, repeats, hc, ih]

theorem kept?_group_run (n : Nat) (p : Char → Bool) (cs : List Char) :
    (group n (run p)).kept? cs =
      if (cs.takeWhile p).isEmpty then none
      else some ([(n, cs.takeWhile p)], cs.dropWhile p) := by
  rcases cs with _ | ⟨c, cs⟩
  · rfl
  · have hmany := first?_many p cs
    rw [first?, ways] at hmany
    by_cases hc : p c = true <;>
      simp [kept?, first?, run, ways, Way.keep, Way.append, hc, hmany]

/-- What comes after a line is read at the last place on it where it can be. -/
theorem kept?_line_next (hnil : b.kept? [] = none) (hline : ∀ cs, b.kept? ('\n' :: cs) = none)
    (cs : List Char) : (next line b).kept? cs = lastOnLine b.kept? cs := by
  rw [line]
  induction cs with
  | nil => rw [kept?_many_next_of_not b (by simp), hnil, lastOnLine]
  | cons c cs ih =>
    rcases eq_or_ne c '\n' with rfl | hc
    · rw [kept?_many_next_of_not b (by simp), hline, lastOnLine, if_pos rfl]
    · rw [kept?_many_next_cons b (by simpa using hc), ih, lastOnLine_cons hc]

/-- A lazy repetition after `before` ends at the first place where what comes next can be read. -/
theorem findSome?_repeats_lazy (n : Nat) (p q : Char → Bool) (before cs : List Char) :
    ((repeats false p cs).findSome? fun w =>
        ((one q).kept? w.rest).map fun k => ((n, before ++ w.taken) :: w.groups ++ k.1, k.2)) =
      match cs.dropWhile fun c => !q c && p c with
      | e :: rest =>
        if q e then some ([(n, before ++ cs.takeWhile fun c => !q c)], rest) else none
      | [] => none := by
  induction cs generalizing before with
  | nil => rfl
  | cons c cs ih =>
    have hone : (one q).kept? (c :: cs) = if q c then some ([], cs) else none := by
      by_cases hq : q c = true <;> simp [kept?, first?, ways, hq]
    by_cases hq : q c = true
    · by_cases hp : p c = true <;> simp [repeats, hp, hq, hone]
    by_cases hp : p c = true
    · have ih := ih (before ++ [c])
      simp only [List.append_assoc, List.singleton_append] at ih
      simp [repeats, hp, hq, hone, List.findSome?_map, Function.comp_def, ← ih]
    · simp [repeats, hp, hq, hone]

theorem kept?_lazy_next (n : Nat) (p q : Char → Bool) (cs : List Char) :
    (next (group n (.many false p)) (.one q)).kept? cs =
      match cs.dropWhile fun c => !q c && p c with
      | e :: rest => if q e then some ([(n, cs.takeWhile fun c => !q c)], rest) else none
      | [] => none := by
  have h := findSome?_repeats_lazy n p q [] cs
  simp only [List.nil_append] at h
  rw [kept?_next, ways, List.findSome?_map, ← h]
  rfl

theorem kept?_optional (a : Pattern) (cs : List Char) :
    (optional a).kept? cs = (a.kept? cs).or (some ([], cs)) := by
  rw [kept?, first?, optional, ways, List.head?_append, Option.map_or]
  rfl

theorem findSome?_of_isSome {α β : Type} {f : α → Option β} (h : ∀ a, f a ≠ none) (as : List α) :
    as.findSome? f = as.head?.bind f := by
  rcases as with _ | ⟨a, as⟩
  · rfl
  · obtain ⟨b, hb⟩ := Option.ne_none_iff_exists'.1 (h a)
    simp [hb]

/-- What is optional is read if it can be, when the rest can be read in any case. -/
theorem kept?_optional_next (a : Pattern) (hb : ∀ cs, b.kept? cs ≠ none) (cs : List Char) :
    (next (optional a) b).kept? cs =
      match a.kept? cs with
      | some k => (b.kept? k.2).map fun k' => (k.1 ++ k'.1, k'.2)
      | none => b.kept? cs := by
  have hsome (w : Way) : (b.kept? w.rest).map (fun k => (w.groups ++ k.1, k.2)) ≠ none := by
    simpa using hb w.rest
  rw [kept?_next, findSome?_of_isSome hsome, kept?, first?, optional, ways]
  rcases a.ways cs with _ | ⟨w, ws⟩
  · simp [ways]
  · rfl

end Pattern

end PageScript.Text
