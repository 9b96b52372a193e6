import PageScript.Proofs.Script.Prices
import PageScript.Proofs.Script.Watermarks

/-!
# Where the parts of a script stand

What a script says about a watermark and a price stands somewhere in it.  `Watermark.PageAt` and
`Watermark.TextAt` tell where the number of a page and the text between quotes begin, and
`Price.PriceAt` where an amount does.  What is read of a script is what stands at some place
(`Watermark.page_eq_some_iff`, `Watermark.text_eq_some_iff`, `Price.find?_iff_priceAt`).
-/

namespace PageScript.Script

open Text

/-- A part that is found in a text, with what follows it, begins at place `i`. -/
def Stands (Found : List Char → List Char × List Char → Prop) (cs : List Char) (i : ℕ)
    (part : List Char) : Prop :=
  ∃ before after, cs = before ++ (part ++ after) ∧ before.length = i ∧ Found cs (part, after)

/-- What is found in a text is a part of it, with all that follows. -/
def IsPart (Found : List Char → List Char × List Char → Prop) : Prop :=
  ∀ cs k, Found cs k → k.1 ++ k.2 <:+ cs

variable {cs tail : List Char} {Found : List Char → List Char × List Char → Prop}

theorem IsPart.exists_stands_iff (h : IsPart Found) {part : List Char} :
    (∃ i, Stands Found cs i part) ↔ ∃ after, Found cs (part, after) := by
  constructor
  · rintro ⟨i, before, after, -, -, hf⟩
    exact ⟨after, hf⟩
  · rintro ⟨after, hf⟩
    obtain ⟨before, heq⟩ := h cs _ hf
    exact ⟨before.length, before, after, heq.symm, rfl, hf⟩

theorem IsPart.lastOnLine (h : IsPart Found) : IsPart (LastOnLine Found) := by
  rintro cs k ⟨gap, ⟨tail, rfl, -, hf⟩, -⟩
  exact (h tail k hf).trans (List.suffix_append gap tail)

theorem suffix_of_followsFirst {word rest : List Char} (h : FollowsFirst word cs rest) :
    rest <:+ cs := by
  obtain ⟨before, spelled, rfl, -⟩ := h
  exact List.suffix_append _ rest

namespace Watermark

/-- A text clause at the front: what stands between its quotes, and what follows that. -/
inductive Quotation : List Char → List Char × List Char → Prop
  | intro {spelled blanks said after : List Char} {q e : Char}
    (hword : Spells "text".toList spelled) (hblanks : ∀ c ∈ blanks, isBlank c = true)
    (hq : isQuote q = true) (hsaid : ∀ c ∈ said, isQuote c = false ∧ c ≠ '\n')
    (he : isQuote e = true) :
    Quotation (spelled ++ blanks ++ q :: (said ++ e :: after)) (said, e :: after)

theorem textClause_iff (cs said : List Char) :
    TextClause cs said ↔ ∃ after, Quotation cs (said, after) := by
  constructor
  · rintro ⟨hword, hblanks, hq, hsaid, he⟩
    exact ⟨_, .intro hword hblanks hq hsaid he⟩
  · rintro ⟨_, ⟨hword, hblanks, hq, hsaid, he⟩⟩
    exact .intro hword hblanks hq hsaid he

theorem lastOnLine_textClause_iff {said : List Char} :
    LastOnLine TextClause cs said ↔ ∃ after, LastOnLine Quotation cs (said, after) := by
  have honLine (gap said : List Char) :
      OnLine TextClause cs gap said ↔ ∃ after, OnLine Quotation cs gap (said, after) := by
    simp only [OnLine, textClause_iff]
    exact ⟨fun ⟨tail, heq, hgap, after, h⟩ => ⟨after, tail, heq, hgap, h⟩,
      fun ⟨after, tail, heq, hgap, h⟩ => ⟨tail, heq, hgap, after, h⟩⟩
  constructor
  · rintro ⟨gap, ho, hmax⟩
    obtain ⟨after, ho⟩ := (honLine gap said).1 ho
    exact ⟨after, gap, ho, fun gap' k ho' => hmax gap' k.1 ((honLine gap' k.1).2 ⟨k.2, ho'⟩)⟩
  · rintro ⟨after, gap, ho, hmax⟩
    refine ⟨gap, (honLine gap said).2 ⟨after, ho⟩, fun gap' said' ho' => ?_⟩
    obtain ⟨after', ho'⟩ := (honLine gap' said').1 ho'
    exact hmax gap' _ ho'

/-- The number of a page that is found after the first mention. -/
def PageFound (cs : List Char) (k : List Char × List Char) : Prop :=
  ∃ rest, FollowsFirst mention cs rest ∧ LastOnLine PageClause rest k

/-- The text that is found after the first mention and its page. -/
def TextFound (cs : List Char) (k : List Char × List Char) : Prop :=
  ∃ rest page tail, FollowsFirst mention cs rest ∧ PageSaid rest page tail ∧
    LastOnLine Quotation tail k

/-- The number of the page begins at place `i`. -/
def PageAt : List Char → ℕ → List Char → Prop := Stands PageFound

/-- The text of the watermark begins at place `i`. -/
def TextAt : List Char → ℕ → List Char → Prop := Stands TextFound

theorem isPart_pageClause : IsPart PageClause := by
  rintro cs k ⟨⟩
  rw [List.append_assoc]
  exact List.suffix_append _ _

theorem isPart_quotation : IsPart Quotation := by
  rintro cs k ⟨⟩
  exact (List.suffix_cons _ _).trans (List.suffix_append _ _)

theorem suffix_of_pageSaid {page : UInt32} (h : PageSaid cs page tail) : tail <:+ cs := by
  cases h with
  | named hlast => exact (List.suffix_append _ _).trans (isPart_pageClause.lastOnLine _ _ hlast)
  | outOfRange hlast =>
    exact (List.suffix_append _ _).trans (isPart_pageClause.lastOnLine _ _ hlast)
  | absent => exact List.suffix_rfl

theorem isPart_pageFound : IsPart PageFound := by
  rintro cs k ⟨rest, hrest, hlast⟩
  exact (isPart_pageClause.lastOnLine _ _ hlast).trans (suffix_of_followsFirst hrest)

theorem isPart_textFound : IsPart TextFound := by
  rintro cs k ⟨rest, page, tail, hrest, hpage, hlast⟩
  exact ((isPart_quotation.lastOnLine _ _ hlast).trans (suffix_of_pageSaid hpage)).trans
    (suffix_of_followsFirst hrest)

/-- The digits that are read are those that stand somewhere. -/
theorem page_eq_some_iff {digits : List Char} :
    (wording cs).page = some digits ↔ ∃ i, PageAt cs i digits := by
  rw [PageAt, isPart_pageFound.exists_stands_iff]
  simp only [PageFound, ← afterWord?_eq_some_iff, ← lastOnLine_eq_some_iff readsOn_pageClause,
    wording]
  rcases afterWord? mention cs with _ | rest
  · simp
  · simp only [wordingAfter, Option.some.injEq, exists_eq_left']
    rcases lastOnLine pageClause? rest with _ | ⟨digits', after⟩ <;> simp

theorem text_eq_some_iff {said : List Char} :
    (wording cs).text = some said ↔ ∃ i, TextAt cs i said := by
  rw [TextAt, isPart_textFound.exists_stands_iff]
  have hfound : (∃ after, TextFound cs (said, after)) ↔ ∃ rest page tail,
      FollowsFirst mention cs rest ∧ PageSaid rest page tail ∧ LastOnLine TextClause tail said := by
    simp only [TextFound, lastOnLine_textClause_iff]
    exact ⟨fun ⟨after, rest, page, tail, hrest, hpage, h⟩ => ⟨rest, page, tail, hrest, hpage, _, h⟩,
      fun ⟨rest, page, tail, hrest, hpage, after, h⟩ => ⟨after, rest, page, tail, hrest, hpage, h⟩⟩
  rw [hfound]
  simp only [← afterWord?_eq_some_iff, pageSaid_iff, ← lastOnLine_eq_some_iff readsOn_textClause,
    wording]
  rcases afterWord? mention cs with _ | rest
  · simp
  · simp only [wordingAfter, pageSaid, Option.some.injEq, exists_and_left, exists_eq_left']
    rcases lastOnLine pageClause? rest with _ | ⟨digits, after⟩ <;> simp

end Watermark

namespace Price

/-- The first amount begins at place `i`. -/
def PriceAt (cs : List Char) (i : ℕ) (w : Written) : Prop :=
  ∃ before tail, cs = before ++ tail ∧ before.length = i ∧ (∀ c ∈ before, c.isDigit = false) ∧
    (∀ c ∈ tail.head?, c.isDigit = true) ∧ FirstAmount tail w

theorem find?_iff_priceAt {w : Written} : find? cs = some w ↔ ∃ i, PriceAt cs i w := by
  rw [find?_eq_some_iff]
  constructor
  · intro h
    have hfirst {before whole rest : List Char} (hbefore : ∀ c ∈ before, c.isDigit = false)
        (hsome : whole ≠ []) (hwhole : ∀ c ∈ whole, c.isDigit = true)
        (hw : FirstAmount (whole ++ rest) w) : ∃ i, PriceAt (before ++ (whole ++ rest)) i w := by
      refine ⟨before.length, before, whole ++ rest, rfl, rfl, hbefore, ?_, hw⟩
      obtain ⟨d, whole, rfl⟩ := List.exists_cons_of_ne_nil hsome
      rintro c ⟨⟩
      exact hwhole _ List.mem_cons_self
    cases h with
    | whole hbefore hsome hwhole hafter hpoint =>
      exact hfirst hbefore hsome hwhole
        (.whole (List.forall_mem_nil _) hsome hwhole hafter hpoint)
    | decimal hbefore hsome hwhole hsome' hfraction hafter =>
      exact hfirst hbefore hsome hwhole
        (.decimal (List.forall_mem_nil _) hsome hwhole hsome' hfraction hafter)
  · rintro ⟨_, front, tail, rfl, -, hfront, -, h⟩
    have hbefore {before : List Char} (h : ∀ c ∈ before, c.isDigit = false) :
        ∀ c ∈ front ++ before, c.isDigit = false := by
      intro c hc
      exact (List.mem_append.1 hc).elim (hfront c) (h c)
    cases h with
    | whole hbefore' hsome hwhole hafter hpoint =>
      rw [← List.append_assoc]
      exact .whole (hbefore hbefore') hsome hwhole hafter hpoint
    | decimal hbefore' hsome hwhole hsome' hfraction hafter =>
      rw [← List.append_assoc]
      exact .decimal (hbefore hbefore') hsome hwhole hsome' hfraction hafter

end Price

end PageScript.Script
