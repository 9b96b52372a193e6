import PageScript.Proofs.Script.Extracted
import PageScript.Proofs.Script.Fallback
import PageScript.Proofs.Text.Cased

/-!
# Case does not matter

Two scripts that are the same but for case have the same plan but for the case of its texts, and
what is found in one is found in the other at the same place (`interpret_sameButCase`).  Each
reader of a script is shown to read alike in both: the clauses and the amount, then what is found by
them, then the rules.
-/

namespace PageScript

/-- The effects are of one kind and have the same data but for the case of their texts. -/
inductive Effect.SameButCase : Effect → Effect → Prop
  | log {message message' : String} (h : Text.SameButCase message.toList message'.toList) :
    SameButCase (.log message) (.log message')
  | addWatermark {page : UInt32} {said said' : String}
    (h : Text.SameButCase said.toList said'.toList) :
    SameButCase (.addWatermark page said) (.addWatermark page said')
  | highlightText {word word' : String} (h : Text.SameButCase word.toList word'.toList) :
    SameButCase (.highlightText word) (.highlightText word')
  | refl (e : Effect) : SameButCase e e

namespace Script

open Text

variable {cs ds : List Char} {i : ℕ}

/-- A part and what follows it are the same but for case. -/
def SameParts (k k' : List Char × List Char) : Prop :=
  SameButCase k.1 k'.1 ∧ SameButCase k.2 k'.2

theorem Stands.sameButCase {Found : List Char → List Char × List Char → Prop} {part : List Char}
    (hpart : IsPart Found) (hblind : Blind SameParts Found) (h : SameButCase cs ds)
    (hs : Stands Found cs i part) : ∃ part', Stands Found ds i part' ∧ SameButCase part part' := by
  obtain ⟨before, after, rfl, rfl, hf⟩ := hs
  obtain ⟨⟨part', after'⟩, hf', hsame, hafter⟩ := hblind _ ds _ h hf
  obtain ⟨before', rfl⟩ := hpart ds _ hf'
  have hlength := h.length_eq
  simp only [List.length_append, hsame.length_eq, hafter.length_eq] at hlength
  exact ⟨part', ⟨before', after', rfl, by omega, hf'⟩, hsame⟩

namespace Watermark

theorem caseBlind_isQuote : CaseBlind isQuote :=
  caseBlind_of_capitals (by decide)

theorem blind_pageClause : Blind SameParts PageClause := by
  rintro cs ds k h ⟨hword, hne, hblanks, hsome, hdigits, hafter⟩
  obtain ⟨front, after', rfl, hfront, hsame⟩ := h.of_append
  obtain ⟨front, digits', rfl, hfront, hdigits'⟩ := hfront.of_append
  obtain ⟨spelled', blanks', rfl, hspelled, hblanks'⟩ := hfront.of_append
  exact ⟨(digits', after'), .intro (hspelled.spells (by decide) hword)
    (hblanks'.ne_nil hne) (hblanks'.forall_mem caseBlind_isBlank hblanks) (hdigits'.ne_nil hsome)
    (hdigits'.forall_mem caseBlind_isDigit hdigits)
    (hsame.forall_head? caseBlind_isDigit hafter), hdigits', hsame⟩

theorem blind_quotation : Blind SameParts Quotation := by
  rintro cs ds k h ⟨hword, hblanks, hq, hsaid, he⟩
  obtain ⟨front, tail, rfl, hfront, htail⟩ := h.of_append
  obtain ⟨spelled', blanks', rfl, hspelled, hblanks'⟩ := hfront.of_append
  obtain ⟨q', tail, rfl, hq', htail⟩ := htail.of_cons
  obtain ⟨said', tail, rfl, hsaid', htail⟩ := htail.of_append
  obtain ⟨e', after', rfl, he', hafter⟩ := htail.of_cons
  have hquote := hsaid'.forall_mem caseBlind_isQuote fun c hc => (hsaid c hc).1
  have hline := hsaid'.newline_not_mem fun hc => (hsaid _ hc).2 rfl
  refine ⟨(said', e' :: after'), .intro (hspelled.spells (by decide) hword)
    (hblanks'.forall_mem caseBlind_isBlank hblanks) (by rwa [← caseBlind_isQuote.eq hq'])
    (fun c hc => ⟨hquote c hc, ne_of_mem_of_not_mem hc hline⟩)
    (by rwa [← caseBlind_isQuote.eq he']), hsaid', ?_⟩
  rw [SameButCase, List.map_cons, List.map_cons, he', hafter]

theorem digits_of_lastOnLine {k : List Char × List Char} (h : LastOnLine PageClause cs k) :
    ∀ c ∈ k.1, c.isDigit = true := by
  obtain ⟨gap, ⟨tail, -, -, hclause⟩, -⟩ := h
  cases hclause
  assumption

theorem PageSaid.sameButCase {page : UInt32} {tail : List Char} (h : SameButCase cs ds)
    (hpage : PageSaid cs page tail) : ∃ tail', PageSaid ds page tail' ∧ SameButCase tail tail' := by
  have hsame {digits after : List Char} (hlast : LastOnLine PageClause cs (digits, after)) :
      ∃ after', LastOnLine PageClause ds (digits, after') ∧ SameButCase after after' := by
    obtain ⟨⟨digits', after'⟩, hlast', hdigits, hafter⟩ :=
      blind_pageClause.lastOnLine cs ds _ h hlast
    obtain rfl := hdigits.eq_of_digits (digits_of_lastOnLine hlast)
    exact ⟨after', hlast', hafter⟩
  cases hpage with
  | named hlast hpos hpage =>
    obtain ⟨after', hlast', hafter⟩ := hsame hlast
    exact ⟨after', .named hlast' hpos hpage, hafter⟩
  | outOfRange hlast hrange =>
    obtain ⟨after', hlast', hafter⟩ := hsame hlast
    exact ⟨after', .outOfRange hlast' hrange, hafter⟩
  | absent hnone => exact ⟨ds, .absent (blind_pageClause.not_onLine h hnone), h⟩

theorem letters_mention : ∀ letter ∈ mention, letter ∈ smallLetters :=
  isKeyword_watermark.letters

theorem blind_pageFound : Blind SameParts PageFound := by
  rintro cs ds k h ⟨rest, hrest, hlast⟩
  obtain ⟨rest', hrest', hsame⟩ := h.followsFirst letters_mention hrest
  obtain ⟨k', hlast', hk⟩ := blind_pageClause.lastOnLine rest rest' k hsame hlast
  exact ⟨k', ⟨rest', hrest', hlast'⟩, hk⟩

theorem blind_textFound : Blind SameParts TextFound := by
  rintro cs ds k h ⟨rest, page, tail, hrest, hpage, hlast⟩
  obtain ⟨rest', hrest', hsame⟩ := h.followsFirst letters_mention hrest
  obtain ⟨tail', hpage', htail⟩ := hpage.sameButCase hsame
  obtain ⟨k', hlast', hk⟩ := blind_quotation.lastOnLine tail tail' k htail hlast
  exact ⟨k', ⟨rest', page, tail', hrest', hpage', hlast'⟩, hk⟩

theorem PageAt.sameButCase {digits : List Char} (h : SameButCase cs ds)
    (hp : PageAt cs i digits) : PageAt ds i digits := by
  obtain ⟨digits', hp', hsame⟩ := Stands.sameButCase isPart_pageFound blind_pageFound h hp
  obtain ⟨before, after, -, -, rest, -, hlast⟩ := hp
  obtain rfl := hsame.eq_of_digits (digits_of_lastOnLine hlast)
  exact hp'

theorem TextAt.sameButCase {said : List Char} (h : SameButCase cs ds) (ht : TextAt cs i said) :
    ∃ said', TextAt ds i said' ∧ SameButCase said said' :=
  Stands.sameButCase isPart_textFound blind_textFound h ht

/-- The same page is read, and the same text but for case. -/
theorem wording_sameButCase (h : SameButCase cs ds) :
    (wording cs).page = (wording ds).page ∧
      Option.Rel SameButCase (wording cs).text (wording ds).text := by
  constructor
  · refine Option.ext fun digits => ?_
    rw [page_eq_some_iff, page_eq_some_iff]
    exact ⟨fun ⟨i, hp⟩ => ⟨i, hp.sameButCase h⟩, fun ⟨i, hp⟩ => ⟨i, hp.sameButCase h.symm⟩⟩
  · have hfound {cs ds : List Char} (h : SameButCase cs ds) {said : List Char}
        (hsaid : (wording cs).text = some said) :
        ∃ said', (wording ds).text = some said' ∧ SameButCase said said' := by
      obtain ⟨i, ht⟩ := text_eq_some_iff.1 hsaid
      obtain ⟨said', ht', hsame⟩ := ht.sameButCase h
      exact ⟨said', text_eq_some_iff.2 ⟨i, ht'⟩, hsame⟩
    rcases hcs : (wording cs).text with _ | said
    · rcases hds : (wording ds).text with _ | said
      · exact .none
      · obtain ⟨said', hsaid', -⟩ := hfound h.symm hds
        rw [hcs] at hsaid'
        cases hsaid'
    · obtain ⟨said', hsaid', hsame⟩ := hfound h hcs
      rw [hsaid']
      exact .some hsame

end Watermark

namespace Price

variable {w : Written}

theorem caseBlind_point : CaseBlind (· == '.') :=
  caseBlind_of_capitals (by decide)

theorem eq_point {c : Char} (h : ('.' : Char).toLower = c.toLower) : c = '.' := by
  have hpoint := caseBlind_point.eq h
  exact eq_of_beq hpoint.symm

theorem FirstAmount.sameButCase (h : SameButCase cs ds) (hw : FirstAmount cs w) :
    FirstAmount ds w := by
  cases hw with
  | whole hbefore hsome hwhole hafter hpoint =>
    obtain ⟨before', tail, rfl, hbefore', htail⟩ := h.of_append
    obtain ⟨whole', after', rfl, hwhole', hafter'⟩ := htail.of_append
    obtain rfl := hwhole'.eq_of_digits hwhole
    refine .whole (hbefore'.forall_mem caseBlind_isDigit hbefore) hsome hwhole
      (hafter'.forall_head? caseBlind_isDigit hafter) ?_
    rintro d rest rfl
    obtain ⟨p, tail, rfl, hp, htail⟩ := hafter'.symm.of_cons
    obtain ⟨d', rest', rfl, hd, -⟩ := htail.of_cons
    rw [caseBlind_isDigit.eq hd]
    exact hpoint d' rest' (by rw [eq_point hp])
  | decimal hbefore hsome hwhole hsome' hfraction hafter =>
    obtain ⟨before', tail, rfl, hbefore', htail⟩ := h.of_append
    obtain ⟨whole', tail, rfl, hwhole', htail⟩ := htail.of_append
    obtain ⟨p, tail, rfl, hp, htail⟩ := htail.of_cons
    obtain ⟨fraction', after', rfl, hfraction', hafter'⟩ := htail.of_append
    obtain rfl := hwhole'.eq_of_digits hwhole
    obtain rfl := hfraction'.eq_of_digits hfraction
    rw [eq_point hp]
    exact .decimal (hbefore'.forall_mem caseBlind_isDigit hbefore) hsome hwhole hsome' hfraction
      (hafter'.forall_head? caseBlind_isDigit hafter)

theorem PriceAt.sameButCase (h : SameButCase cs ds) (hp : PriceAt cs i w) : PriceAt ds i w := by
  obtain ⟨before, tail, rfl, rfl, hbefore, htail, hw⟩ := hp
  obtain ⟨before', tail', rfl, hbefore', htail'⟩ := h.of_append
  exact ⟨before', tail', rfl, hbefore'.length_eq.symm,
    hbefore'.forall_mem caseBlind_isDigit hbefore, htail'.forall_head? caseBlind_isDigit htail,
    hw.sameButCase htail'⟩

theorem find?_sameButCase (h : SameButCase cs ds) : find? cs = find? ds := by
  refine Option.ext fun w => ?_
  rw [find?_iff_priceAt, find?_iff_priceAt]
  exact ⟨fun ⟨i, hp⟩ => ⟨i, hp.sameButCase h⟩, fun ⟨i, hp⟩ => ⟨i, hp.sameButCase h.symm⟩⟩

end Price

/-! ### Rules -/

/-- The rule does the same with two scripts but for case. -/
structure IgnoresCase (s s' : Script) (rule : Rule) : Prop where
  applies : rule.applies s = rule.applies s'
  build : List.Forall₂ Effect.SameButCase (rule.build s) (rule.build s')

theorem ruleEffects_sameButCase {s s' : Script} {rules : List Rule}
    (h : ∀ rule ∈ rules, IgnoresCase s s' rule) :
    List.Forall₂ Effect.SameButCase (ruleEffects rules s) (ruleEffects rules s') := by
  induction rules with
  | nil => exact .nil
  | cons rule rules ih =>
    obtain ⟨hrule, hrules⟩ := List.forall_mem_cons.1 h
    rcases happlies : rule.applies s with _ | _
    · have happlies' := hrule.applies ▸ happlies
      simpa [ruleEffects, happlies, happlies'] using ih hrules
    · rw [ruleEffects_cons_of_applies happlies,
        ruleEffects_cons_of_applies (hrule.applies ▸ happlies)]
      exact List.rel_append hrule.build (ih hrules)

theorem effects_sameButCase {s s' : Script} {rules : List Rule}
    (h : ∀ rule ∈ rules, IgnoresCase s s' rule)
    (hfallback : List.Forall₂ Effect.SameButCase (Rule.fallback s) (Rule.fallback s')) :
    List.Forall₂ Effect.SameButCase (effects rules s) (effects rules s') := by
  have hrules := ruleEffects_sameButCase h
  rcases hbuilt : ruleEffects rules s with _ | ⟨e, es⟩
  · rw [hbuilt] at hrules
    rw [effects_of_not_built hbuilt, effects_of_not_built (List.forall₂_nil_left_iff.1 hrules)]
    exact hfallback
  · have hne : ruleEffects rules s' ≠ [] := by
      rintro hnil
      rw [hbuilt, hnil] at hrules
      cases hrules
    rwa [effects_of_built (by simp [hbuilt]), effects_of_built hne]

variable {text text' : String}

theorem watermarkEffects_sameButCase (page : UInt32)
    (h : SameButCase text.toList text'.toList) :
    List.Forall₂ Effect.SameButCase (Rule.watermarkEffects page text)
      (Rule.watermarkEffects page text') := by
  refine .cons (.addWatermark h) (.cons (.log ?_) .nil)
  simp only [String.toList_append]
  exact ((SameButCase.refl _).append h).append (.refl _)

theorem textOrDefault_sameButCase {w w' : Watermark.Wording}
    (h : Option.Rel SameButCase w.text w'.text) :
    SameButCase w.textOrDefault.toList w'.textOrDefault.toList := by
  rcases w with ⟨_, said⟩
  rcases w' with ⟨_, said'⟩
  cases h with
  | none => exact .refl _
  | some h => simpa [Watermark.Wording.textOrDefault] using h

theorem watermark_ignoresCase (h : SameButCase text.toList text'.toList) (now : Int64) :
    IgnoresCase (ofText text now) (ofText text' now) Rule.watermark where
  applies := by
    rw [Bool.eq_iff_iff, applies_watermark_iff, applies_watermark_iff]
    exact h.occurs_iff isKeyword_watermark.letters
  build := by
    obtain ⟨hpage, htext⟩ := Watermark.wording_sameButCase h
    simp only [Rule.watermark, ofText, Watermark.Wording.pageOrDefault, hpage]
    exact watermarkEffects_sameButCase _ (textOrDefault_sameButCase htext)

theorem lockPages_ignoresCase (h : SameButCase text.toList text'.toList) (now : Int64) :
    IgnoresCase (ofText text now) (ofText text' now) Rule.lockPages where
  applies := by
    rw [Bool.eq_iff_iff, applies_lockPages_iff, applies_lockPages_iff,
      h.occurs_iff isKeyword_pay.letters, h.occurs_iff isKeyword_unlock.letters]
  build := by
    simp only [Rule.lockPages, ofText, Rule.lockPrice, Price.find?_sameButCase h]
    exact .cons (.refl _) (.cons (.refl _) .nil)

theorem mint_ignoresCase (h : SameButCase text.toList text'.toList) (now : Int64) :
    IgnoresCase (ofText text now) (ofText text' now) Rule.mint where
  applies := by
    rw [Bool.eq_iff_iff, applies_mint_iff, applies_mint_iff]
    exact h.occurs_iff isKeyword_mint.letters
  build := .cons (.refl _) (.cons (.refl _) .nil)

/-! ### Plans -/

theorem middleWord_sameButCase (h : SameButCase text.toList text'.toList) :
    SameButCase (Rule.middleWord text).toList (Rule.middleWord text').toList := by
  obtain ⟨hlength, hget⟩ := List.forall₂_iff_get.1 h.words
  simp only [Rule.middleWord, ← hlength]
  rcases Nat.lt_or_ge ((words text.toList).length / 2) (words text.toList).length with hlt | hge
  · have hlt' : (words text.toList).length / 2 < (words text'.toList).length := by omega
    have hsame := hget _ hlt hlt'
    rw [List.getElem?_eq_getElem hlt, List.getElem?_eq_getElem hlt']
    simpa using hsame
  · rw [List.getElem?_eq_none hge, List.getElem?_eq_none (by omega)]
    exact .refl _

theorem fallback_sameButCase (h : SameButCase text.toList text'.toList) (now : Int64) :
    List.Forall₂ Effect.SameButCase (Rule.fallback (ofText text now))
      (Rule.fallback (ofText text' now)) :=
  .cons (.refl _) (.cons (.highlightText (middleWord_sameButCase h)) .nil)

theorem plan_sameButCase (h : SameButCase text.toList text'.toList) (now : Int64) :
    List.Forall₂ Effect.SameButCase (interpret [] now text).effects
      (interpret [] now text').effects := by
  rw [effects_interpret, effects_interpret, List.append_nil]
  refine effects_sameButCase ?_ (fallback_sameButCase h now)
  simp only [Rule.builtIn, List.forall_mem_cons]
  exact ⟨watermark_ignoresCase h now, lockPages_ignoresCase h now, mint_ignoresCase h now,
    List.forall_mem_nil _⟩

theorem build_watermark_of_not_textAt (hnone : ∀ i said, ¬ Watermark.TextAt text.toList i said)
    (now : Int64) : Rule.watermark.build (ofText text now) =
      Rule.watermarkEffects (Watermark.wording text.toList).pageOrDefault "CONFIDENTIAL" := by
  have htext : (Watermark.wording text.toList).text = none := by
    refine Option.eq_none_iff_forall_ne_some.2 fun said hsaid => ?_
    obtain ⟨i, ht⟩ := Watermark.text_eq_some_iff.1 hsaid
    exact hnone i said ht
  simp only [Rule.watermark, ofText, Watermark.Wording.textOrDefault, htext]
  rfl

theorem middleWord_of_ncard_eq_zero (hnone : (runs text.toList).ncard = 0) :
    Rule.middleWord text = "example" :=
  (highlights_middleWord text).eq_iff.2 (.inl hnone)

/-- Two scripts that are the same but for case have the same plan but for the case of its texts.
The page, the text and the price are found at the same places, and what stands for a text or a word
that is not found is the same. -/
theorem interpret_sameButCase (h : SameButCase text.toList text'.toList) (now : Int64) :
    List.Forall₂ Effect.SameButCase (interpret [] now text).effects
        (interpret [] now text').effects ∧
      (∀ i digits, Watermark.PageAt text.toList i digits ↔ Watermark.PageAt text'.toList i digits) ∧
      (∀ i n, (∃ said, said.length = n ∧ Watermark.TextAt text.toList i said) ↔
        ∃ said, said.length = n ∧ Watermark.TextAt text'.toList i said) ∧
      (∀ i w, Price.PriceAt text.toList i w ↔ Price.PriceAt text'.toList i w) ∧
      ((∀ i said, ¬ Watermark.TextAt text.toList i said) → ∃ page, ∀ t ∈ [text, text'],
        Rule.watermark.build (ofText t now) =
          [.addWatermark page "CONFIDENTIAL", .log ("Planned watermark on page " ++
            Numeral.text page.toNat ++ " with text: \"CONFIDENTIAL\"")]) ∧
      (runs text.toList = ∅ →
        Rule.middleWord text = "example" ∧ Rule.middleWord text' = "example") := by
  have htextAt {text text' : String} (h : SameButCase text.toList text'.toList) {i n : ℕ}
      (hfound : ∃ said, said.length = n ∧ Watermark.TextAt text.toList i said) :
      ∃ said, said.length = n ∧ Watermark.TextAt text'.toList i said := by
    obtain ⟨said, rfl, ht⟩ := hfound
    obtain ⟨said', ht', hsame⟩ := ht.sameButCase h
    exact ⟨said', hsame.length_eq.symm, ht'⟩
  refine ⟨plan_sameButCase h now, fun i digits => ⟨.sameButCase h, .sameButCase h.symm⟩,
    fun i n => ⟨htextAt h, htextAt h.symm⟩, fun i w => ⟨.sameButCase h, .sameButCase h.symm⟩,
    fun hnone => ?_, fun hnone => ?_⟩
  · have hnone' : ∀ i said, ¬ Watermark.TextAt text'.toList i said := by
      intro i said ht
      obtain ⟨said', ht', -⟩ := ht.sameButCase h.symm
      exact hnone i said' ht'
    have hpage := (Watermark.wording_sameButCase h).1
    refine ⟨(Watermark.wording text.toList).pageOrDefault,
      List.forall_mem_cons.2 ⟨?_, List.forall_mem_singleton.2 ?_⟩⟩
    · rw [build_watermark_of_not_textAt hnone now, watermarkEffects_confidential]
    · rw [build_watermark_of_not_textAt hnone' now, watermarkEffects_confidential,
        Watermark.Wording.pageOrDefault, ← hpage]
      rfl
  · have hlength := h.words.length_eq
    rw [length_words, length_words, hnone, Set.ncard_empty] at hlength
    exact ⟨middleWord_of_ncard_eq_zero (by rw [hnone, Set.ncard_empty]),
      middleWord_of_ncard_eq_zero hlength.symm⟩

theorem interpret_sameButCase_draft :
    SameButCase "Watermark page 2, text 'Draft'".toList
        "wATERMARK PAGE 2, Text 'dRAFT'".toList ∧
      List.Forall₂ Effect.SameButCase
        [.addWatermark 2 "Draft", .log "Planned watermark on page 2 with text: \"Draft\""]
        (interpret [] 0 "wATERMARK PAGE 2, Text 'dRAFT'").effects := by
  have h : SameButCase "Watermark page 2, text 'Draft'".toList
      "wATERMARK PAGE 2, Text 'dRAFT'".toList := by decide +kernel
  have hplan := (interpret_sameButCase h 0).1
  have happlies : Rule.watermark.applies (ofText "Watermark page 2, text 'Draft'" 0) = true ∧
      Rule.lockPages.applies (ofText "Watermark page 2, text 'Draft'" 0) = false ∧
      Rule.mint.applies (ofText "Watermark page 2, text 'Draft'" 0) = false := by
    decide +kernel
  have hpage : Numeral.text (UInt32.toNat 2) = "2" := by decide +kernel
  have hbuild : Rule.watermark.build (ofText "Watermark page 2, text 'Draft'" 0) =
      [.addWatermark 2 "Draft", .log "Planned watermark on page 2 with text: \"Draft\""] := by
    change Rule.watermarkEffects 2 "Draft" = _
    rw [Rule.watermarkEffects, hpage]
    rfl
  have hbuilt : ruleEffects (Rule.builtIn ++ []) (ofText "Watermark page 2, text 'Draft'" 0) =
      [.addWatermark 2 "Draft", .log "Planned watermark on page 2 with text: \"Draft\""] := by
    simp [ruleEffects, Rule.builtIn, happlies, hbuild]
  rw [effects_interpret, effects_of_built (by rw [hbuilt]; exact List.cons_ne_nil _ _), hbuilt]
    at hplan
  exact ⟨h, hplan⟩

end Script

end PageScript
