import PageScript.Proofs.Script.Watermarks

/-!
# Requests for a watermark

A request names a page and a text, in either order and with fillers around them.  Only when the
page comes first and its text speaks of no page is the request granted as it was made; otherwise
the text is lost (`watermark_request`).  The text is looked for only after the last page clause, be
that one in the text itself.
-/

namespace PageScript.Script.Watermark

open Text

/-- Characters without a digit, a quote or the end of a line. -/
def IsFiller (cs : List Char) : Prop :=
  ∀ c ∈ cs, c.isDigit = false ∧ isQuote c = false ∧ c ≠ '\n'

/-- Characters that can stand between quotes. -/
def IsQuotable (cs : List Char) : Prop :=
  ∀ c ∈ cs, isQuote c = false ∧ c ≠ '\n'

instance (cs : List Char) : Decidable (IsFiller cs) :=
  inferInstanceAs (Decidable (∀ c ∈ cs, _))

instance (cs : List Char) : Decidable (IsQuotable cs) :=
  inferInstanceAs (Decidable (∀ c ∈ cs, _))

variable {cs before after digits said : List Char}

theorem IsFiller.quotable (h : IsFiller cs) : IsQuotable cs :=
  fun c hc => (h c hc).2

theorem IsQuotable.newline_not_mem (h : IsQuotable cs) : '\n' ∉ cs :=
  fun hc => (h _ hc).2 rfl

theorem IsQuotable.countP_eq_zero (h : IsQuotable cs) : cs.countP isQuote = 0 :=
  List.countP_eq_zero.2 fun c hc => by simp [(h c hc).1]

/-! ### Where no clause is -/

theorem pageClause?_cons_of_not {c : Char} (h : isLetter 'p' c = false) (cs : List Char) :
    pageClause? (c :: cs) = none := by
  refine pageClause?_of_dropWord?_none ?_
  change (if isLetter 'p' c then dropWord? ['a', 'g', 'e'] cs else none) = none
  rw [h]
  rfl

theorem lastOnLine_pageClause_eq_none (h : ∀ c ∈ cs, c.isDigit = false) :
    lastOnLine pageClause? cs = none := by
  refine (lastOnLine_eq_none_iff readsOn_pageClause).2 ?_
  rintro gap k ⟨tail, rfl, -, hclause⟩
  cases hclause with
  | intro hword hne hblanks hsome hdigits hafter =>
    obtain ⟨d, digits, rfl⟩ := List.exists_cons_of_ne_nil hsome
    have hd := hdigits d List.mem_cons_self
    rw [h d (by simp)] at hd
    cases hd

theorem lastOnLine_textClause_eq_none (h : cs.countP isQuote < 2) :
    lastOnLine textClause? cs = none := by
  refine (lastOnLine_eq_none_iff readsOn_textClause).2 ?_
  rintro gap said ⟨tail, rfl, -, hclause⟩
  cases hclause with
  | intro hword hblanks hq hsaid he =>
    simp only [List.countP_append, List.countP_cons, hq, he, if_true] at h
    omega

/-! ### Where the last clause is -/

/-- A quote ends what a page clause can be. -/
theorem pageClause?_append_quote {q : Char} (hq : isQuote q = true) (part tail : List Char) :
    pageClause? (part ++ q :: tail) =
      (pageClause? part).map fun k => (k.1, k.2 ++ q :: tail) := by
  have hends : (∀ letter ∈ "page".toList, isLetter letter q = false) ∧ q.isDigit = false := by
    have hq : q = '"' ∨ q = '\'' := by simpa [isQuote] using hq
    rcases hq with rfl | rfl <;> decide +kernel
  have hdrop := dropWord?_append_cons hends.1 part tail
  rcases hword : dropWord? "page".toList part with _ | after
  · rw [hword] at hdrop
    rw [pageClause?_of_dropWord?_none hdrop, pageClause?_of_dropWord?_none hword]
    rfl
  · rw [hword] at hdrop
    obtain ⟨hblanks, hrest⟩ := takeWhile_append_cons (isBlank_of_isQuote hq) after tail
    obtain ⟨hdigits, hafter⟩ := takeWhile_append_cons hends.2 (after.dropWhile isBlank) tail
    rw [pageClause?_of_dropWord? hdrop, pageClause?_of_dropWord? hword, hblanks, hrest, hdigits,
      hafter]
    split_ifs <;> rfl

theorem isLetter_p_of_isDigit {c : Char} (h : c.isDigit = true) :
    c ≠ '\n' ∧ isLetter 'p' c = false := by
  constructor
  · rintro rfl
    cases h
  · rw [← Bool.not_eq_true]
    intro hp
    have hp : c = 'p' ∨ c = 'P' := by simpa [isLetter] using hp
    rcases hp with rfl | rfl <;> cases h

/-- A page clause is the last one when no digit comes after its number. -/
theorem lastOnLine_pageClause (hbefore : '\n' ∉ before) (hsome : digits ≠ [])
    (hdigits : ∀ c ∈ digits, c.isDigit = true) (hafter : ∀ c ∈ after, c.isDigit = false) :
    lastOnLine pageClause? (before ++ ("page ".toList ++ digits ++ after)) =
      some (digits, after) := by
  have hclause : pageClause? ("page ".toList ++ digits ++ after) = some (digits, after) := by
    have hspelled : Spells "page".toList "page".toList :=
      .cons rfl (.cons rfl (.cons rfl (.cons rfl .nil)))
    exact (pageClause?_eq_some_iff _ _).2 (.intro hspelled (List.cons_ne_nil ' ' [])
      (by decide) hsome hdigits fun c hc => hafter c (List.mem_of_mem_head? hc))
  -- A clause begins with its letter, and there is none in the rest of this one.
  have hnot : ∀ c ∈ "age ".toList ++ digits, c ≠ '\n' ∧ ∀ cs, pageClause? (c :: cs) = none := by
    intro c hc
    have hp : c ≠ '\n' ∧ isLetter 'p' c = false := by
      rcases List.mem_append.1 hc with hc | hc
      · exact (by decide : ∀ c ∈ "age ".toList, c ≠ '\n' ∧ isLetter 'p' c = false) c hc
      · exact isLetter_p_of_isDigit (hdigits c hc)
    exact ⟨hp.1, pageClause?_cons_of_not hp.2⟩
  have hrest := lastOnLine_append_of_not hnot after
  rw [lastOnLine_pageClause_eq_none hafter] at hrest
  refine lastOnLine_append_of_some hbefore ?_
  change lastOnLine pageClause? ('p' :: ("age ".toList ++ digits ++ after)) = _
  rw [lastOnLine_cons (by decide), hrest, Option.none_or]
  exact hclause

/-- A text clause is the last one when no quote comes after it. -/
theorem lastOnLine_textClause (hbefore : '\n' ∉ before) (hsaid : IsQuotable said)
    (hafter : after.countP isQuote = 0) :
    lastOnLine textClause? (before ++ ("text ".toList ++ '"' :: (said ++ '"' :: after))) =
      some said := by
  have hclause : textClause? ("text ".toList ++ '"' :: (said ++ '"' :: after)) = some said := by
    have hspelled : Spells "text".toList "text".toList :=
      .cons rfl (.cons rfl (.cons rfl (.cons rfl .nil)))
    have hblanks : ∀ c ∈ [' '], isBlank c = true := by decide
    exact (textClause?_eq_some_iff _ _).2 (.intro hspelled hblanks rfl hsaid rfl)
  have hquoted : lastOnLine textClause? (said ++ '"' :: after) = none :=
    lastOnLine_textClause_eq_none (by simp [hsaid.countP_eq_zero, hafter, isQuote])
  refine lastOnLine_append_of_some hbefore ?_
  change lastOnLine textClause?
    ('t' :: 'e' :: 'x' :: 't' :: ' ' :: '"' :: (said ++ '"' :: after)) = _
  rw [lastOnLine_cons (by decide), lastOnLine_cons (by decide), lastOnLine_cons (by decide),
    lastOnLine_cons (by decide), lastOnLine_cons (by decide), lastOnLine_cons (by decide), hquoted]
  exact hclause

/-! ### Requests -/

/-- A page and a text for a watermark, and what is written around them.  The fillers hold the spaces
that part them from the clauses. -/
structure Request where
  page : UInt32
  said : String
  start : String
  middle : String
  rest : String
  page_pos : 1 ≤ page.toNat
  quotable : IsQuotable said.toList
  filler_start : IsFiller start.toList
  filler_middle : IsFiller middle.toList
  filler_rest : IsFiller rest.toList

namespace Request

def pageFirst (r : Request) : String :=
  "watermark" ++ r.start ++ "page " ++ Numeral.text r.page.toNat ++ r.middle ++ "text \"" ++
    r.said ++ "\"" ++ r.rest

def textFirst (r : Request) : String :=
  "watermark" ++ r.start ++ "text \"" ++ r.said ++ "\"" ++ r.middle ++ "page " ++
    Numeral.text r.page.toNat ++ r.rest

/-- A request up to its text, the page first. -/
def lead (r : Request) : List Char :=
  r.start.toList ++ ("page ".toList ++ Numeral.digits r.page.toNat ++
    (r.middle.toList ++ "text ".toList))

variable (r : Request)

theorem wording_mention (cs : List Char) : wording (mention ++ cs) = wordingAfter cs := rfl

theorem wording_pageFirst : wording r.pageFirst.toList =
    wordingAfter (r.lead ++ '"' :: (r.said.toList ++ '"' :: r.rest.toList)) := by
  rw [← wording_mention]
  -- The equation of a long chain of literals is slow to prove, and is not needed.
  delta pageFirst lead
  simp only [String.toList_append, Numeral.toList_text, List.append_assoc]
  rfl

theorem wording_textFirst : wording r.textFirst.toList =
    wordingAfter (r.start.toList ++ "text \"".toList ++ r.said.toList ++ '"' :: r.middle.toList ++
      ("page ".toList ++ Numeral.digits r.page.toNat ++ r.rest.toList)) := by
  rw [← wording_mention]
  delta textFirst
  simp only [String.toList_append, Numeral.toList_text, List.append_assoc]
  rfl

theorem newline_not_mem_lead : '\n' ∉ r.lead := by
  have hdigits : '\n' ∉ Numeral.digits r.page.toNat := by
    intro h
    cases Numeral.isDigit_of_mem_digits _ _ h
  have hpage : '\n' ∉ "page ".toList := by decide
  have htext : '\n' ∉ "text ".toList := by decide
  simp only [lead, List.mem_append, not_or]
  exact ⟨r.filler_start.quotable.newline_not_mem, ⟨hpage, hdigits⟩,
    r.filler_middle.quotable.newline_not_mem, htext⟩

theorem lastOnLine_lead : lastOnLine pageClause? r.lead =
    some (Numeral.digits r.page.toNat, r.middle.toList ++ "text ".toList) := by
  refine lastOnLine_pageClause r.filler_start.quotable.newline_not_mem (Numeral.digits_ne_nil _)
    (Numeral.isDigit_of_mem_digits _) fun c hc => ?_
  rcases List.mem_append.1 hc with hc | hc
  · exact (r.filler_middle c hc).1
  · exact (by decide : ∀ c ∈ "text ".toList, c.isDigit = false) c hc

/-- The text and what follows it have the page clauses of the text alone. -/
theorem lastOnLine_said : lastOnLine pageClause? (r.said.toList ++ '"' :: r.rest.toList) =
    (lastOnLine pageClause? r.said.toList).map fun k => (k.1, k.2 ++ '"' :: r.rest.toList) := by
  refine lastOnLine_append_of_none r.quotable.newline_not_mem
    (fun part => pageClause?_append_quote rfl part _) (lastOnLine_pageClause_eq_none ?_)
  rw [List.forall_mem_cons]
  exact ⟨by decide, fun c hc => (r.filler_rest c hc).1⟩

theorem countP_rest : r.rest.toList.countP isQuote = 0 :=
  r.filler_rest.quotable.countP_eq_zero

/-- A text that speaks of no page is found after the page clause. -/
theorem wording_pageFirst_of_none (h : lastOnLine pageClause? r.said.toList = none) :
    wording r.pageFirst.toList = ⟨some (Numeral.digits r.page.toNat), some r.said.toList⟩ := by
  have hsaid : lastOnLine pageClause? ('"' :: (r.said.toList ++ '"' :: r.rest.toList)) = none := by
    rw [lastOnLine_cons (by decide), r.lastOnLine_said, h]
    rfl
  have hpage := lastOnLine_append_of_none r.newline_not_mem_lead
    (fun part => pageClause?_append_quote rfl part _) hsaid
  have htext := lastOnLine_textClause r.filler_middle.quotable.newline_not_mem r.quotable
    r.countP_rest
  rw [← List.append_assoc] at htext
  rw [wording_pageFirst, wordingAfter, hpage, r.lastOnLine_lead]
  exact congrArg _ htext

/-- The last page clause within the text takes the place of the one before it, and there is no text
after it. -/
theorem wording_pageFirst_of_some {digits rest : List Char}
    (h : lastOnLine pageClause? r.said.toList = some (digits, rest)) :
    wording r.pageFirst.toList = ⟨some digits, none⟩ := by
  have hline : '\n' ∉ r.lead ++ ['"'] := by
    simp [r.newline_not_mem_lead]
  have hpage : lastOnLine pageClause? (r.lead ++ ['"'] ++ (r.said.toList ++ '"' :: r.rest.toList)) =
      some (digits, rest ++ '"' :: r.rest.toList) :=
    lastOnLine_append_of_some hline (by rw [r.lastOnLine_said, h]; rfl)
  have hrest : rest.countP isQuote = 0 := by
    obtain ⟨gap, ⟨tail, htail, -, hclause⟩, -⟩ := (lastOnLine_eq_some_iff readsOn_pageClause).1 h
    have hcount := r.quotable.countP_eq_zero
    cases hclause with
    | intro =>
      simp only [htail, List.countP_append, Nat.add_eq_zero_iff] at hcount
      exact hcount.2.2
  have htext : lastOnLine textClause? (rest ++ '"' :: r.rest.toList) = none :=
    lastOnLine_textClause_eq_none (by simp [hrest, r.countP_rest, isQuote])
  rw [List.append_assoc, List.singleton_append] at hpage
  rw [wording_pageFirst, wordingAfter, hpage]
  exact congrArg _ htext

/-- After the page clause there is no text any more. -/
theorem wording_textFirst_eq :
    wording r.textFirst.toList = ⟨some (Numeral.digits r.page.toNat), none⟩ := by
  have hline : '\n' ∉ r.start.toList ++ "text \"".toList ++ r.said.toList ++
      '"' :: r.middle.toList := by
    have hword : '\n' ∉ "text \"".toList := by decide
    have hquote : '\n' ≠ '"' := by decide
    simp only [List.mem_append, List.mem_cons, not_or]
    exact ⟨⟨⟨r.filler_start.quotable.newline_not_mem, hword⟩, r.quotable.newline_not_mem⟩, hquote,
      r.filler_middle.quotable.newline_not_mem⟩
  have hpage := lastOnLine_pageClause hline (Numeral.digits_ne_nil r.page.toNat)
    (Numeral.isDigit_of_mem_digits _) fun c hc => (r.filler_rest c hc).1
  have htext : lastOnLine textClause? r.rest.toList = none :=
    lastOnLine_textClause_eq_none (by simp [r.countP_rest])
  rw [wording_textFirst, wordingAfter, hpage]
  exact congrArg _ htext

theorem pageNumber?_digits : pageNumber? (Numeral.digits r.page.toNat) = some r.page :=
  pageNumber?_eq_some_iff.2 ⟨r.page_pos, Numeral.value_digits _⟩

end Request

end PageScript.Script.Watermark

namespace PageScript.Script

open Text Watermark

/-- A plan begins with the watermark. -/
theorem interpret_of_wording (further : List Rule) (now : Int64) {text : String}
    {digits : List Char} {said : Option (List Char)}
    (h : wording text.toList = ⟨some digits, said⟩) :
    ∃ more, (interpret further now text).effects =
      Rule.watermarkEffects ((pageNumber? digits).getD defaultPage)
        ((said.map String.ofList).getD defaultText) ++ more := by
  have hoccurs : (afterWord? mention text.toList).isSome = true := by
    rw [wording] at h
    split at h
    · rename_i hafter
      rw [hafter]
      rfl
    · cases h
  have happlies := (applies_watermark_iff text now).2 (occurs_iff_isSome.2 hoccurs)
  have hbuild : Rule.watermark.build (ofText text now) = Rule.watermarkEffects
      (wording text.toList).pageOrDefault (wording text.toList).textOrDefault := rfl
  have hrules : Rule.builtIn ++ further =
      [] ++ Rule.watermark :: ([Rule.lockPages, Rule.mint] ++ further) := rfl
  have hne : Rule.watermark.build (ofText text now) ≠ [] := by
    rw [hbuild]
    exact List.cons_ne_nil _ _
  have hnone : ruleEffects [] (ofText text now) = [] := rfl
  rw [interpret, hrules, effects_of_applies [] _ happlies hne, hbuild, h, hnone, List.nil_append]
  exact ⟨_, rfl⟩

/-- A request with the page first is granted when its text speaks of no page.  When it does, or when
the text comes first, the text is lost, and in the former case the page may be another one. -/
theorem watermark_request (r : Request) (further : List Rule) (now : Int64) :
    ((∀ gap k, ¬ OnLine PageClause r.said.toList gap k) →
        ∃ more, (interpret further now r.pageFirst).effects =
          [.addWatermark r.page r.said, .log ("Planned watermark on page " ++
            Numeral.text r.page.toNat ++ " with text: \"" ++ r.said ++ "\"")] ++ more) ∧
      (∀ digits rest, LastOnLine PageClause r.said.toList (digits, rest) →
        let page := (pageNumber? digits).getD 1
        ∃ more, (interpret further now r.pageFirst).effects =
          [.addWatermark page "CONFIDENTIAL", .log ("Planned watermark on page " ++
            Numeral.text page.toNat ++ " with text: \"CONFIDENTIAL\"")] ++ more) ∧
      ∃ more, (interpret further now r.textFirst).effects =
        [.addWatermark r.page "CONFIDENTIAL", .log ("Planned watermark on page " ++
          Numeral.text r.page.toNat ++ " with text: \"CONFIDENTIAL\"")] ++ more := by
  refine ⟨fun hnone => ?_, fun digits rest hlast => ?_, ?_⟩
  · have hwording := r.wording_pageFirst_of_none
      ((lastOnLine_eq_none_iff readsOn_pageClause).2 hnone)
    have hplan := interpret_of_wording further now hwording
    rwa [r.pageNumber?_digits, Option.map_some, String.ofList_toList] at hplan
  · have hwording := r.wording_pageFirst_of_some
      ((lastOnLine_eq_some_iff readsOn_pageClause).2 hlast)
    intro page
    rw [← watermarkEffects_confidential]
    exact interpret_of_wording further now hwording
  · have hplan := interpret_of_wording further now r.wording_textFirst_eq
    rw [r.pageNumber?_digits] at hplan
    rw [← watermarkEffects_confidential]
    exact hplan

/-- A draft on the second page. -/
def draft : Request where
  page := 2
  said := "DRAFT"
  start := " with "
  middle := " on "
  rest := " please"
  page_pos := by decide
  quotable := by decide +kernel
  filler_start := by decide +kernel
  filler_middle := by decide +kernel
  filler_rest := by decide +kernel

theorem watermark_request_draft :
    (∃ more, (interpret [] 0 draft.pageFirst).effects =
        [.addWatermark 2 "DRAFT", .log "Planned watermark on page 2 with text: \"DRAFT\""] ++
          more) ∧
      ∃ more, (interpret [] 0 draft.textFirst).effects =
        [.addWatermark 2 "CONFIDENTIAL",
          .log "Planned watermark on page 2 with text: \"CONFIDENTIAL\""] ++ more := by
  have hnone : lastOnLine pageClause? draft.said.toList = none :=
    lastOnLine_pageClause_eq_none (by decide +kernel)
  have hpage : Numeral.text (UInt32.toNat 2) = "2" := by decide +kernel
  obtain ⟨hpageFirst, -, htextFirst⟩ := watermark_request draft [] 0
  have hgranted := hpageFirst ((lastOnLine_eq_none_iff readsOn_pageClause).1 hnone)
  have htwo : draft.page = 2 := rfl
  rw [htwo, hpage] at hgranted htextFirst
  exact ⟨hgranted, htextFirst⟩

/-- The text that comes before its page is lost. -/
theorem draft_lost : ¬ ∃ more,
    (interpret [] 0 "watermark with text \"DRAFT\" on page 2 please").effects =
      [.addWatermark 2 "DRAFT", .log "Planned watermark on page 2 with text: \"DRAFT\""] ++
        more := by
  rintro ⟨more, h⟩
  have htext : draft.textFirst = "watermark with text \"DRAFT\" on page 2 please" := by
    decide +kernel
  obtain ⟨others, hplan⟩ := interpret_of_wording [] 0 draft.wording_textFirst_eq
  rw [← htext, hplan] at h
  have hsaid : "CONFIDENTIAL" = "DRAFT" := (Effect.addWatermark.inj (List.cons.inj h).1).2
  exact absurd hsaid (by decide)

end PageScript.Script
