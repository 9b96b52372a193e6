import PageScript.Proofs.Script.Rules
import PageScript.Proofs.Text.Pattern

/-!
# Watermarks as a pattern and as a scan

What a script says about its watermark is what is kept by the groups of a pattern, in which both
clauses are optional and each is looked for up to the end of the line (`Watermark.pattern`).  The
wording is the same (`Watermark.find?_pattern`), and it can be told without a pattern, by the first
mention and the last clauses after it (`Watermark.Says`).

The word is in the lower-cased text just when the pattern is found in the text, so that the rule
applies exactly where there is a mention (`watermark_by_scan`).
-/

namespace PageScript.Script.Watermark

open Text

/-! ### Clauses -/

/-- A page clause at the front of a text: its digits, which go on as long as they can, and what
follows it. -/
inductive PageClause : List Char → List Char × List Char → Prop
  | intro {spelled blanks digits after : List Char} (hword : Spells "page".toList spelled)
    (hne : blanks ≠ []) (hblanks : ∀ c ∈ blanks, isBlank c = true)
    (hsome : digits ≠ []) (hdigits : ∀ c ∈ digits, c.isDigit = true)
    (hafter : ∀ c ∈ after.head?, c.isDigit = false) :
    PageClause (spelled ++ blanks ++ digits ++ after) (digits, after)

/-- A text clause at the front of a text: what stands between its quotes. -/
inductive TextClause : List Char → List Char → Prop
  | intro {spelled blanks said after : List Char} {q e : Char}
    (hword : Spells "text".toList spelled) (hblanks : ∀ c ∈ blanks, isBlank c = true)
    (hq : isQuote q = true) (hsaid : ∀ c ∈ said, isQuote c = false ∧ c ≠ '\n')
    (he : isQuote e = true) :
    TextClause (spelled ++ blanks ++ q :: (said ++ e :: after)) said

theorem isBlank_of_isDigit {c : Char} (h : c.isDigit = true) : isBlank c = false := by
  have hc : 48 ≤ c.toNat ∧ c.toNat ≤ 57 := by
    simpa [Char.isDigit, UInt32.le_iff_toNat_le] using h
  simp only [isBlank]
  simp
  omega

theorem isBlank_of_isQuote {c : Char} (h : isQuote c = true) : isBlank c = false := by
  simp only [isQuote, Bool.or_eq_true, beq_iff_eq] at h
  rcases h with rfl | rfl <;> rfl

theorem pageClause?_of_dropWord? {cs tail : List Char}
    (h : dropWord? "page".toList cs = some tail) :
    pageClause? cs =
      if (tail.takeWhile isBlank).isEmpty ||
          ((tail.dropWhile isBlank).takeWhile Char.isDigit).isEmpty then none
      else some ((tail.dropWhile isBlank).takeWhile Char.isDigit,
        (tail.dropWhile isBlank).dropWhile Char.isDigit) := by
  have h : dropWord? ['p', 'a', 'g', 'e'] cs = some tail := h
  simp [pageClause?, h]

theorem pageClause?_of_dropWord?_none {cs : List Char} (h : dropWord? "page".toList cs = none) :
    pageClause? cs = none := by
  have h : dropWord? ['p', 'a', 'g', 'e'] cs = none := h
  simp [pageClause?, h]

theorem pageClause?_eq_some_iff (cs : List Char) (k : List Char × List Char) :
    pageClause? cs = some k ↔ PageClause cs k := by
  constructor
  · intro hread
    rcases hword : dropWord? "page".toList cs with _ | tail
    · rw [pageClause?_of_dropWord?_none hword] at hread
      cases hread
    rw [pageClause?_of_dropWord? hword] at hread
    obtain ⟨spelled, rfl, hs⟩ := dropWord?_eq_some_iff.1 hword
    obtain ⟨htail, hblanks, -⟩ := takeWhile_dropWhile_iff.1
      ⟨rfl, (rfl : tail.dropWhile isBlank = tail.dropWhile isBlank)⟩
    obtain ⟨hrest, hdigits, hafter⟩ := takeWhile_dropWhile_iff.1
      ⟨rfl, (rfl : (tail.dropWhile isBlank).dropWhile Char.isDigit = _)⟩
    split_ifs at hread with hsome
    cases hread
    simp only [Bool.or_eq_true, List.isEmpty_iff, not_or] at hsome
    have hclause := PageClause.intro hs hsome.1 hblanks hsome.2 hdigits hafter
    rwa [List.append_assoc, ← hrest, List.append_assoc, ← htail] at hclause
  · rintro ⟨hword, hne, hblanks, hsome, hdigits, hafter⟩
    rename_i spelled blanks digits after
    have hdigit : ∀ c ∈ (digits ++ after).head?, isBlank c = false := by
      obtain ⟨d, digits, rfl⟩ := List.exists_cons_of_ne_nil hsome
      rintro c ⟨⟩
      exact isBlank_of_isDigit (hdigits _ List.mem_cons_self)
    obtain ⟨htake, hdrop⟩ := takeWhile_dropWhile_iff.2 ⟨rfl, hblanks, hdigit⟩
    obtain ⟨htake', hdrop'⟩ := takeWhile_dropWhile_iff.2 ⟨rfl, hdigits, hafter⟩
    rw [List.append_assoc, List.append_assoc,
      pageClause?_of_dropWord? (dropWord?_eq_some_iff.2 ⟨_, rfl, hword⟩), htake, hdrop, htake',
      hdrop']
    simp [hne, hsome]

/-- What ends a text, or stops it from being one. -/
def inSaid (c : Char) : Bool := !isQuote c && c != '\n'

theorem textClause?_of_dropWord? {cs tail : List Char}
    (h : dropWord? "text".toList cs = some tail) :
    textClause? cs =
      match tail.dropWhile isBlank with
      | q :: rest =>
        if isQuote q then
          match rest.dropWhile inSaid with
          | e :: _ => if isQuote e then some (rest.takeWhile fun c => !isQuote c) else none
          | [] => none
        else none
      | [] => none := by
  have h : dropWord? ['t', 'e', 'x', 't'] cs = some tail := h
  rw [textClause?, h]
  rfl

theorem textClause?_of_dropWord?_none {cs : List Char} (h : dropWord? "text".toList cs = none) :
    textClause? cs = none := by
  have h : dropWord? ['t', 'e', 'x', 't'] cs = none := h
  simp [textClause?, h]

/-- Where a quote ends a text, no line ends before it. -/
theorem takeWhile_said {said : List Char} {e : Char} (after : List Char)
    (hsaid : ∀ c ∈ said, isQuote c = false ∧ c ≠ '\n') (he : isQuote e = true) :
    (said ++ e :: after).dropWhile inSaid = e :: after ∧
      (said ++ e :: after).takeWhile (fun c => !isQuote c) = said := by
  constructor
  · rw [List.dropWhile_append_of_pos (by simpa [inSaid] using hsaid)]
    simp [inSaid, he]
  · rw [List.takeWhile_append_of_pos (by simpa using fun c hc => (hsaid c hc).1)]
    simp [he]

theorem textClause?_eq_some_iff (cs said : List Char) :
    textClause? cs = some said ↔ TextClause cs said := by
  constructor
  · intro hread
    rcases hword : dropWord? "text".toList cs with _ | tail
    · rw [textClause?_of_dropWord?_none hword] at hread
      cases hread
    rw [textClause?_of_dropWord? hword] at hread
    obtain ⟨spelled, rfl, hs⟩ := dropWord?_eq_some_iff.1 hword
    obtain ⟨htail, hblanks, -⟩ := takeWhile_dropWhile_iff.1
      ⟨rfl, (rfl : tail.dropWhile isBlank = tail.dropWhile isBlank)⟩
    split at hread
    · rename_i q rest hq
      split_ifs at hread with hquote
      obtain ⟨hrest, hsaid, -⟩ := takeWhile_dropWhile_iff.1
        ⟨rfl, (rfl : rest.dropWhile inSaid = rest.dropWhile inSaid)⟩
      split at hread
      · rename_i e after he
        split_ifs at hread with hend
        have hsaid : ∀ c ∈ rest.takeWhile inSaid, isQuote c = false ∧ c ≠ '\n' := by
          simpa [inSaid] using hsaid
        rw [he] at hrest
        rw [hrest, (takeWhile_said after hsaid hend).2] at hread
        cases hread
        have hclause : TextClause (_ ++ q :: (_ ++ e :: after)) _ :=
          .intro hs hblanks hquote hsaid hend
        rwa [← hrest, List.append_assoc, ← hq, ← htail] at hclause
      · cases hread
    · cases hread
  · rintro ⟨hword, hblanks, hq, hsaid, he⟩
    rename_i spelled blanks after q e
    have hdrop : (blanks ++ q :: (said ++ e :: after)).dropWhile isBlank =
        q :: (said ++ e :: after) := by
      rw [List.dropWhile_append_of_pos hblanks,
        List.dropWhile_cons_of_neg (by simp [isBlank_of_isQuote hq])]
    obtain ⟨hend, hsaid⟩ := takeWhile_said after hsaid he
    rw [List.append_assoc,
      textClause?_of_dropWord? (dropWord?_eq_some_iff.2 ⟨_, rfl, hword⟩), hdrop]
    simp [hq, hend, hsaid, he]

theorem readsOn_pageClause : ReadsOn pageClause? PageClause :=
  ⟨pageClause?_eq_some_iff, rfl, fun _ => rfl⟩

theorem readsOn_textClause : ReadsOn textClause? TextClause :=
  ⟨textClause?_eq_some_iff, rfl, fun _ => rfl⟩

/-! ### The pattern -/

def pagePattern : Pattern :=
  .next (.word "page".toList) (.next (.run isBlank) (.group 1 (.run Char.isDigit)))

def textPattern : Pattern :=
  .next (.word "text".toList) (.next (.many true isBlank) (.next (.one isQuote)
    (.next (.group 2 (.many false (· != '\n'))) (.one isQuote))))

/-- Both clauses if they are there, the text clause after the page clause. -/
def clausesPattern : Pattern :=
  .next (.optional (.next .line pagePattern)) (.optional (.next .line textPattern))

/-- The pattern `watermark(?:.*page\s+([0-9]+))?(?:.*text\s*["'](.*?)["'])?`, in any case. -/
def pattern : Pattern := .next (.word mention) clausesPattern

theorem kept?_pagePattern (cs : List Char) :
    pagePattern.kept? cs = (pageClause? cs).map fun k => ([(1, k.1)], k.2) := by
  rw [pagePattern, Pattern.kept?_word_next]
  rcases hword : dropWord? "page".toList cs with _ | tail
  · rw [pageClause?_of_dropWord?_none hword]
    rfl
  · have hblank (c : Char) (cs : List Char) (hc : isBlank c = true) :
        (Pattern.group 1 (.run Char.isDigit)).kept? (c :: cs) = none := by
      have hdigit : c.isDigit = false := by
        by_contra h
        simp [isBlank_of_isDigit (by simpa using h)] at hc
      simp [Pattern.kept?_group_run, hdigit]
    rw [pageClause?_of_dropWord? hword, Option.bind_some, Pattern.kept?_run_next hblank,
      Pattern.kept?_group_run]
    generalize (tail.takeWhile isBlank).isEmpty = noBlank
    generalize ((tail.dropWhile isBlank).takeWhile Char.isDigit).isEmpty = noDigit
    cases noBlank <;> cases noDigit <;> rfl

theorem kept?_textPattern (cs : List Char) :
    (textPattern.kept? cs).map (·.1) = (textClause? cs).map fun said => [(2, said)] := by
  rw [textPattern, Pattern.kept?_word_next]
  rcases hword : dropWord? "text".toList cs with _ | tail
  · rw [textClause?_of_dropWord?_none hword]
    rfl
  · have hblank (c : Char) (cs : List Char) (hc : isBlank c = true) :
        (Pattern.next (.one isQuote)
          (.next (.group 2 (.many false (· != '\n'))) (.one isQuote))).kept? (c :: cs) = none := by
      have hquote : isQuote c = false := by
        by_contra h
        simp [isBlank_of_isQuote (by simpa using h)] at hc
      simp [Pattern.kept?_one_next, hquote]
    rw [textClause?_of_dropWord? hword, Option.bind_some, Pattern.kept?_many_next hblank]
    rcases tail.dropWhile isBlank with _ | ⟨q, rest⟩
    · rfl
    have hsaid : (fun c => !isQuote c && c != '\n') = inSaid := rfl
    simp only [Pattern.kept?_one_next, Pattern.kept?_lazy_next, hsaid]
    split_ifs
    · rcases rest.dropWhile inSaid with _ | ⟨e, after⟩
      · rfl
      · dsimp only
        split_ifs <;> rfl
    · rfl

/-- What the groups of the pattern keep when the script is worded so. -/
def Wording.groups (w : Wording) : List (Nat × List Char) :=
  w.page.toList.map (1, ·) ++ w.text.toList.map (2, ·)

theorem kept?_pageLine (cs : List Char) :
    (Pattern.next .line pagePattern).kept? cs =
      (lastOnLine pageClause? cs).map fun k => ([(1, k.1)], k.2) := by
  have hread : pagePattern.kept? = fun cs => (pageClause? cs).map fun k => ([(1, k.1)], k.2) :=
    funext kept?_pagePattern
  rw [Pattern.kept?_line_next (by rw [kept?_pagePattern]; rfl)
    (fun cs => by rw [kept?_pagePattern]; rfl), hread, lastOnLine_map]

theorem kept?_textLine (cs : List Char) :
    ((Pattern.next .line textPattern).kept? cs).map (·.1) =
      (lastOnLine textClause? cs).map fun said => [(2, said)] := by
  have hread : (fun cs => (textPattern.kept? cs).map (·.1)) =
      fun cs => (textClause? cs).map fun said => [(2, said)] := funext kept?_textPattern
  have hnone {cs : List Char} (h : textClause? cs = none) : textPattern.kept? cs = none := by
    simpa [h] using kept?_textPattern cs
  rw [Pattern.kept?_line_next (hnone rfl) fun cs => hnone rfl, ← lastOnLine_map, hread,
    lastOnLine_map]

theorem kept?_clausesPattern (cs : List Char) :
    (clausesPattern.kept? cs).map (·.1) = some (wordingAfter cs).groups := by
  have htext (cs : List Char) :
      ((Pattern.optional (.next .line textPattern)).kept? cs).map (·.1) =
        some ((lastOnLine textClause? cs).toList.map (2, ·)) := by
    rw [Pattern.kept?_optional, Option.map_or, kept?_textLine]
    cases lastOnLine textClause? cs <;> rfl
  have hsome (cs : List Char) : (Pattern.optional (.next .line textPattern)).kept? cs ≠ none := by
    rw [Pattern.kept?_optional]
    simp
  rw [clausesPattern, Pattern.kept?_optional_next _ hsome, kept?_pageLine, wordingAfter]
  rcases lastOnLine pageClause? cs with _ | ⟨digits, rest⟩
  · exact htext cs
  · have h := congrArg (Option.map ([(1, digits)] ++ ·)) (htext rest)
    rw [Option.map_map] at h
    simpa [Wording.groups, Function.comp_def] using h

/-- The pattern is found at the first mention, and its groups keep what is said after it. -/
theorem find?_pattern (cs : List Char) :
    (pattern.find? cs).map (·.groups) = (afterWord? mention cs).map fun rest =>
      (wordingAfter rest).groups := by
  have hfirst (cs : List Char) : (pattern.first? cs).map (·.groups) =
      (dropWord? mention cs).map fun rest => (wordingAfter rest).groups := by
    have h := congrArg (Option.map Prod.fst) (Pattern.kept?_word_next mention clausesPattern cs)
    rw [Pattern.kept?, Option.map_map] at h
    refine h.trans ?_
    rcases dropWord? mention cs with _ | rest
    · rfl
    · exact kept?_clausesPattern rest
  induction cs with
  | nil => exact hfirst []
  | cons c cs ih =>
    have h := hfirst (c :: cs)
    rw [Pattern.find?, afterWord?, Option.map_or, ih, h]
    rcases dropWord? mention (c :: cs) with _ | rest <;> rfl

/-! ### The scan -/

/-- The page said after a mention, and where the text is looked for from there on. -/
inductive PageSaid (cs : List Char) : UInt32 → List Char → Prop
  | named {digits after : List Char} {page : UInt32}
    (hlast : LastOnLine PageClause cs (digits, after)) (hpos : 1 ≤ page.toNat)
    (hpage : Numeral.value digits = page.toNat) : PageSaid cs page after
  | outOfRange {digits after : List Char} (hlast : LastOnLine PageClause cs (digits, after))
    (hrange : Numeral.value digits < 1 ∨ 4294967296 ≤ Numeral.value digits) : PageSaid cs 1 after
  | absent (hnone : ∀ gap k, ¬ OnLine PageClause cs gap k) : PageSaid cs 1 cs

/-- The text said from some place on. -/
inductive TextSaid (cs : List Char) : String → Prop
  | named {said : List Char} (hlast : LastOnLine TextClause cs said) :
    TextSaid cs (String.ofList said)
  | absent (hnone : ∀ gap said, ¬ OnLine TextClause cs gap said) : TextSaid cs "CONFIDENTIAL"

/-- What a script says about its watermark, from the end of the first mention on. -/
def Says (cs : List Char) (page : UInt32) (said : String) : Prop :=
  ∃ rest tail, FollowsFirst mention cs rest ∧ PageSaid rest page tail ∧ TextSaid tail said

theorem pageNumber?_eq_some_iff {digits : List Char} {page : UInt32} :
    pageNumber? digits = some page ↔ 1 ≤ page.toNat ∧ Numeral.value digits = page.toNat := by
  have hlt := page.toNat_lt
  simp only [pageNumber?]
  split_ifs with h
  · rw [Option.some.injEq, ← UInt32.toNat_inj, UInt32.toNat_ofNat_of_lt' h.2]
    omega
  · simp only [false_iff]
    omega

theorem pageNumber?_eq_none_iff {digits : List Char} :
    pageNumber? digits = none ↔
      Numeral.value digits < 1 ∨ 4294967296 ≤ Numeral.value digits := by
  simp only [pageNumber?]
  split_ifs with h <;> simp only [false_iff, true_iff] <;> omega

/-- The text is looked for where `pageSaid` leaves off. -/
def pageSaid (cs : List Char) : UInt32 × List Char :=
  match lastOnLine pageClause? cs with
  | some (digits, rest) => ((pageNumber? digits).getD defaultPage, rest)
  | none => (defaultPage, cs)

theorem pageSaid_iff {cs tail : List Char} {page : UInt32} :
    PageSaid cs page tail ↔ pageSaid cs = (page, tail) := by
  constructor
  · intro h
    cases h with
    | named hlast hpos hpage =>
      simp [pageSaid, (lastOnLine_eq_some_iff readsOn_pageClause).2 hlast,
        pageNumber?_eq_some_iff.2 ⟨hpos, hpage⟩]
    | outOfRange hlast hrange =>
      simp [pageSaid, (lastOnLine_eq_some_iff readsOn_pageClause).2 hlast,
        pageNumber?_eq_none_iff.2 hrange, defaultPage]
    | absent hnone =>
      simp [pageSaid, (lastOnLine_eq_none_iff readsOn_pageClause).2 hnone, defaultPage]
  · intro h
    rw [pageSaid] at h
    split at h
    · rename_i digits rest hread
      have hlast := (lastOnLine_eq_some_iff readsOn_pageClause).1 hread
      obtain ⟨rfl, rfl⟩ := Prod.mk.inj h
      rcases hnumber : pageNumber? digits with _ | page
      · exact .outOfRange hlast (pageNumber?_eq_none_iff.1 hnumber)
      · obtain ⟨hpos, hpage⟩ := pageNumber?_eq_some_iff.1 hnumber
        exact .named hlast hpos hpage
    · rename_i hread
      obtain ⟨rfl, rfl⟩ := Prod.mk.inj h
      exact .absent ((lastOnLine_eq_none_iff readsOn_pageClause).1 hread)

theorem textSaid_iff {cs : List Char} {said : String} :
    TextSaid cs said ↔ ((lastOnLine textClause? cs).map String.ofList).getD defaultText = said := by
  constructor
  · intro h
    cases h with
    | named hlast => rw [(lastOnLine_eq_some_iff readsOn_textClause).2 hlast]; rfl
    | absent hnone => rw [(lastOnLine_eq_none_iff readsOn_textClause).2 hnone]; rfl
  · rintro rfl
    rcases hread : lastOnLine textClause? cs with _ | said
    · exact .absent ((lastOnLine_eq_none_iff readsOn_textClause).1 hread)
    · exact .named ((lastOnLine_eq_some_iff readsOn_textClause).1 hread)

theorem wordingAfter_orDefault (cs : List Char) :
    (wordingAfter cs).pageOrDefault = (pageSaid cs).1 ∧
      (wordingAfter cs).textOrDefault =
        ((lastOnLine textClause? (pageSaid cs).2).map String.ofList).getD defaultText := by
  rw [wordingAfter, pageSaid]
  rcases lastOnLine pageClause? cs with _ | ⟨digits, rest⟩ <;> exact ⟨rfl, rfl⟩

/-- The scan reads what is said after the first mention. -/
theorem says_iff {cs : List Char} {page : UInt32} {said : String} :
    Says cs page said ↔ Occurs mention cs ∧ (wording cs).pageOrDefault = page ∧
      (wording cs).textOrDefault = said := by
  simp only [Says, ← afterWord?_eq_some_iff, occurs_iff_isSome, pageSaid_iff, textSaid_iff,
    wording]
  rcases afterWord? mention cs with _ | rest
  · simp
  · simp [wordingAfter_orDefault, Prod.ext_iff, eq_comm]

theorem Wording.groups_lookup (w : Wording) :
    w.groups.lookup 1 = w.page ∧ w.groups.lookup 2 = w.text := by
  rcases w with ⟨_ | page, _ | text⟩ <;> exact ⟨rfl, rfl⟩

end PageScript.Script.Watermark

namespace PageScript.Script

open Text Watermark

/-- The rule for watermarks applies just where its pattern is found, plans a watermark with what the
groups of the pattern keep, and that is what is said after the first mention. -/
theorem watermark_by_scan (text : String) (now : Int64) :
    (Rule.watermark.applies (ofText text now) = true ↔
        (pattern.find? text.toList).isSome = true) ∧
      (∀ w, pattern.find? text.toList = some w →
        let page := ((w.group? 1).bind pageNumber?).getD 1
        let said := ((w.group? 2).map String.ofList).getD "CONFIDENTIAL"
        Rule.watermark.build (ofText text now) =
          [.addWatermark page said, .log ("Planned watermark on page " ++
            Numeral.text page.toNat ++ " with text: \"" ++ said ++ "\"")]) ∧
      (Rule.watermark.applies (ofText text now) = true →
        ∃ page said, Says text.toList page said) ∧
      ∀ page said, Says text.toList page said →
        Rule.watermark.applies (ofText text now) = true ∧
          Rule.watermark.build (ofText text now) =
            [.addWatermark page said, .log ("Planned watermark on page " ++
              Numeral.text page.toNat ++ " with text: \"" ++ said ++ "\"")] := by
  have happlies : Rule.watermark.applies (ofText text now) = true ↔
      Occurs mention text.toList := applies_watermark_iff text now
  have hfind := find?_pattern text.toList
  refine ⟨?_, fun w hw => ?_, fun h => ?_, fun page said h => ?_⟩
  · rw [happlies, occurs_iff_isSome, ← Option.isSome_map (f := Way.groups), hfind,
      Option.isSome_map]
  · intro page said
    rw [hw, Option.map_some] at hfind
    have hwording : w.groups = (wording text.toList).groups := by
      rcases hafter : afterWord? mention text.toList with _ | rest
      · simp [hafter] at hfind
      · simpa [hafter, wording] using hfind
    obtain ⟨hgroup₁, hgroup₂⟩ := (wording text.toList).groups_lookup
    have hpage : page = (wording text.toList).pageOrDefault := by
      simp only [page, Way.group?, hwording, hgroup₁]
      rfl
    have hsaid : said = (wording text.toList).textOrDefault := by
      simp only [said, Way.group?, hwording, hgroup₂]
      rfl
    rw [hpage, hsaid]
    rfl
  · exact ⟨_, _, says_iff.2 ⟨happlies.1 h, rfl, rfl⟩⟩
  · obtain ⟨hoccurs, rfl, rfl⟩ := says_iff.1 h
    exact ⟨happlies.2 hoccurs, rfl⟩

theorem watermark_by_scan_last_clauses :
    let text := "WaterMar\u212A, page 9? Page 12, text 'A', text \"B' page"
    Says text.toList 12 "B" ∧ Rule.watermark.applies (ofText text 0) = true ∧
      Rule.watermark.build (ofText text 0) =
        [.addWatermark 12 "B", .log "Planned watermark on page 12 with text: \"B\""] := by
  intro text
  have hscan : Says text.toList 12 "B" := says_iff.2
    ⟨occurs_iff_isSome.2 (by decide +kernel), by decide +kernel, by decide +kernel⟩
  have hpage : Numeral.text (UInt32.toNat 12) = "12" := by decide +kernel
  obtain ⟨happlies, hbuild⟩ := (watermark_by_scan text 0).2.2.2 12 "B" hscan
  rw [hpage] at hbuild
  exact ⟨hscan, happlies, hbuild⟩

end PageScript.Script
