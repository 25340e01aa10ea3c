import CircuitText.Proofs.Parsing.Expression

/-!
# Reading lists is deriving them

A list is read in a loop that takes a comma in every round and then, unless the closing bracket is
ahead, an item.  A comma with nothing behind it can therefore only be the last one, as the grammar
has it.  The items themselves are a parameter: `ReadsItem` is what the loop has to know of them.

* `ReadsItem` --- an item is read where there is one;
* `reads_listWithComma_nil`, `reads_listWithComma_cons`, `reads_list` --- lists;
* `readsItem_registerName`, `readsItem_parameter`, `readsItem_expression` --- the items there are.
-/

namespace CircuitText
namespace Grammar

variable {α : Type} {s t u : State}

/-- With `n` levels left, `item` reads phrases of the sort `X`.  It may refuse one that an infix
operator follows, since it would go on with it. -/
structure ReadsItem (n : Nat) (item : Production α) (X : Phrase α) : Prop where
  spans_of_reads : ∀ {s a t}, s.levels = n → Reads item s.advance a t → Spans X s a t
  reads_of_spans : ∀ {s a t}, s.levels = n → Spans X s a t → t.ahead.kind ≠ .infixOp →
    Reads item s.advance a t
  ne_rightParen : ∀ {s a t}, Spans X s a t → s.ahead.kind ≠ .rightParen

section List

variable {item : Production α} {X : Phrase α} {a : α} {as : List α}

theorem endOfText_ne_comma : (Kind.endOfText == .comma) = false := rfl

/-- The loop that reads what follows the first item of a list. -/
abbrev moreItems (item : Production α) : Production (List (Option α)) :=
  whileAhead (· == .comma) endOfText_ne_comma (itemAfterComma item)

theorem reads_itemAfterComma_none :
    Reads (itemAfterComma item) s none t ↔ s.ahead.kind = .rightParen ∧ t = s := by
  simp [itemAfterComma, reads_bind (p := item)]

theorem reads_itemAfterComma_some :
    Reads (itemAfterComma item) s (some a) t ↔
      s.ahead.kind ≠ .rightParen ∧ Reads item s.advance a t := by
  simp [itemAfterComma, reads_bind (p := item)]

theorem spans_of_reads_moreItems {found : List (Option α)} (h : ReadsItem s.levels item X)
    (hmore : Reads (moreItems item) s found t) :
    Spans (MoreItems X) s (found.filterMap id) t := by
  induction found generalizing s with
  | nil =>
    obtain ⟨-, rfl⟩ := reads_whileAhead_nil.mp hmore
    exact spans_moreItems_nil.mpr (.inl rfl)
  | cons a found ih =>
    obtain ⟨hcomma, u, hitem, hrest⟩ := reads_whileAhead_cons.mp hmore
    have hcomma : s.ahead.kind = .comma := by simpa using hcomma
    cases a with
    | none =>
      -- the closing bracket is ahead, so the loop ends here
      obtain ⟨hclose, rfl⟩ := reads_itemAfterComma_none.mp hitem
      cases found with
      | nil =>
        obtain ⟨-, rfl⟩ := reads_whileAhead_nil.mp hrest
        exact spans_moreItems_nil.mpr (.inr ⟨hcomma, rfl⟩)
      | cons b found =>
        have := (reads_whileAhead_cons.mp hrest).1
        simp [hclose] at this
    | some a =>
      have hspan := h.spans_of_reads (levels_advance s) (reads_itemAfterComma_some.mp hitem).2
      have hlevels : u.levels = s.levels := by rw [hspan.levels, levels_advance]
      exact spans_moreItems_cons.mpr ⟨hcomma, u, hspan, ih (hlevels ▸ h) hrest⟩

/-- An item of a list is followed by a comma or by the closing bracket, and no infix operator. -/
theorem ahead_ne_infixOp_of_spans_moreItems (hmore : Spans (MoreItems X) s as t)
    (hclose : t.ahead.kind = .rightParen) : s.ahead.kind ≠ .infixOp := by
  cases as with
  | nil =>
    rcases spans_moreItems_nil.mp hmore with rfl | ⟨hk, -⟩
    · simp [hclose]
    · simp [hk]
  | cons a as => simp [(spans_moreItems_cons.mp hmore).1]

theorem reads_moreItems_of_spans (h : ReadsItem s.levels item X)
    (hmore : Spans (MoreItems X) s as t) (hclose : t.ahead.kind = .rightParen) :
    ∃ found, Reads (moreItems item) s found t ∧ as = found.filterMap id := by
  induction as generalizing s with
  | nil =>
    rcases spans_moreItems_nil.mp hmore with rfl | ⟨hk, rfl⟩
    · exact ⟨[], reads_whileAhead_nil.mpr ⟨by simp [hclose], rfl⟩, rfl⟩
    · refine ⟨[none], reads_whileAhead_cons.mpr ⟨by simp [hk], s.advance, ?_, ?_⟩, rfl⟩
      · exact reads_itemAfterComma_none.mpr ⟨hclose, rfl⟩
      · exact reads_whileAhead_nil.mpr ⟨by simp [hclose], rfl⟩
  | cons a as ih =>
    obtain ⟨hk, u, hspan, hrest⟩ := spans_moreItems_cons.mp hmore
    have hlevels : u.levels = s.levels := by rw [hspan.levels, levels_advance]
    obtain ⟨found, hfound, rfl⟩ := ih (hlevels ▸ h) hrest
    have hitem := h.reads_of_spans (levels_advance s) hspan
      (ahead_ne_infixOp_of_spans_moreItems hrest hclose)
    refine ⟨some a :: found, reads_whileAhead_cons.mpr ⟨by simp [hk], u, ?_, hfound⟩, rfl⟩
    exact reads_itemAfterComma_some.mpr ⟨h.ne_rightParen hspan, hitem⟩

/-! ## Whole lists -/

theorem reads_listWithComma {comma : Bool} :
    Reads (listWithComma item) s (as, comma) t ↔
      (s.ahead.kind = .rightParen ∧ as = [] ∧ comma = false ∧ t = s.advance) ∨
      (s.ahead.kind ≠ .rightParen ∧ ∃ a u more v, Reads item s.advance a u ∧
        comma = (u.ahead.kind == .comma) ∧ Reads (moreItems item) u more v ∧
        v.ahead.kind = .rightParen ∧ as = a :: more.filterMap id ∧ t = v.advance) := by
  rw [listWithComma, reads_aheadIs_bind, reads_ite, beq_iff_eq]
  refine or_congr (and_congr_right fun _ => ?_) (and_congr_right fun _ => ?_)
  · rw [reads_advance_bind, reads_pure, Prod.mk.injEq, and_assoc]
  · rw [reads_advance_bind, reads_bind]
    refine exists_congr fun a => ?_
    constructor
    · rintro ⟨u, hitem, hrest⟩
      rw [reads_aheadIs_bind] at hrest
      obtain ⟨more, v, hmore, hend⟩ := reads_bind.mp hrest
      simp only [reads_expect_bind, reads_pure, Prod.mk.injEq] at hend
      obtain ⟨hclose, ⟨rfl, rfl⟩, rfl⟩ := hend
      exact ⟨u, more, v, hitem, rfl, hmore, hclose, rfl, rfl⟩
    · rintro ⟨u, more, v, hitem, rfl, hmore, hclose, rfl, rfl⟩
      refine ⟨u, hitem, ?_⟩
      rw [reads_aheadIs_bind]
      exact reads_bind.mpr ⟨more, v, hmore, by simp [hclose]⟩

theorem reads_listWithComma_nil {comma : Bool} :
    Reads (listWithComma item) s ([], comma) t ↔
      s.ahead.kind = .rightParen ∧ comma = false ∧ t = s.advance := by
  simp [reads_listWithComma]

theorem reads_listWithComma_cons {comma : Bool} (h : ReadsItem s.levels item X) :
    Reads (listWithComma item) s (a :: as, comma) t ↔
      ∃ u v, Spans X s a u ∧ comma = (u.ahead.kind == .comma) ∧ Spans (MoreItems X) u as v ∧
        v.ahead.kind = .rightParen ∧ t = v.advance := by
  simp only [reads_listWithComma, List.cons_ne_nil, false_and, and_false, false_or,
    List.cons.injEq]
  constructor
  · rintro ⟨-, b, u, more, v, hitem, rfl, hmore, hclose, ⟨rfl, rfl⟩, rfl⟩
    have hspan := h.spans_of_reads rfl hitem
    exact ⟨u, v, hspan, rfl, spans_of_reads_moreItems (hspan.levels ▸ h) hmore, hclose, rfl⟩
  · rintro ⟨u, v, hspan, rfl, hmore, hclose, rfl⟩
    obtain ⟨more, hread, rfl⟩ := reads_moreItems_of_spans (hspan.levels ▸ h) hmore hclose
    have hitem := h.reads_of_spans rfl hspan (ahead_ne_infixOp_of_spans_moreItems hmore hclose)
    exact ⟨h.ne_rightParen hspan, a, u, more, v, hitem, rfl, hread, hclose, ⟨rfl, rfl⟩, rfl⟩

/-- A list is read as one whose last comma is noticed. -/
theorem reads_list_iff :
    Reads (list item) s as t ↔ ∃ comma, Reads (listWithComma item) s (as, comma) t := by
  rw [list, reads_bind]
  simp only [reads_pure, Prod.exists]
  constructor
  · rintro ⟨as', comma, u, h, rfl, rfl⟩
    exact ⟨comma, h⟩
  · rintro ⟨comma, h⟩
    exact ⟨as, comma, t, h, rfl, rfl⟩

/-- A list is read exactly where there are items with commas between them and then a closing
bracket. -/
theorem reads_list (h : ReadsItem s.levels item X) :
    Reads (list item) s as t ↔
      ∃ u, Spans (Items X) s as u ∧ u.ahead.kind = .rightParen ∧ t = u.advance := by
  rw [reads_list_iff]
  cases as with
  | nil =>
    constructor
    · rintro ⟨comma, hread⟩
      obtain ⟨hclose, -, rfl⟩ := reads_listWithComma_nil.mp hread
      exact ⟨s, spans_items_nil.mpr rfl, hclose, rfl⟩
    · rintro ⟨u, hspan, hclose, rfl⟩
      rw [spans_items_nil] at hspan
      subst hspan
      exact ⟨false, reads_listWithComma_nil.mpr ⟨hclose, rfl, rfl⟩⟩
  | cons a as =>
    constructor
    · rintro ⟨comma, hread⟩
      obtain ⟨v, w, hitem, -, hmore, hclose, rfl⟩ := (reads_listWithComma_cons h).mp hread
      exact ⟨w, spans_items_cons.mpr ⟨v, hitem, hmore⟩, hclose, rfl⟩
    · rintro ⟨u, hspan, hclose, rfl⟩
      obtain ⟨v, hitem, hmore⟩ := spans_items_cons.mp hspan
      exact ⟨_, (reads_listWithComma_cons h).mpr ⟨v, u, hitem, rfl, hmore, hclose, rfl⟩⟩

/-- A list with its opening bracket, which is still ahead. -/
theorem reads_list_advance (h : ReadsItem s.levels item X) (hopen : s.ahead.kind = .leftParen) :
    Reads (list item) s.advance as t ↔ Spans (Bracketed (Items X)) s as t := by
  rw [reads_list (by rwa [levels_advance]), spans_bracketed, and_iff_right hopen]

end List

/-! ## Items -/

theorem reads_registerName {x : String} :
    Reads registerName s.advance x t ↔ Spans IsRegister s x t := by
  simp only [registerName, reads_current_bind, current_advance, reads_ite, reads_pure,
    not_reads_fail, and_false, or_false]
  constructor
  · rintro ⟨hk, rfl, rfl⟩
    exact ⟨_, .mk, by simp [hk]⟩
  · rintro ⟨ws, ⟨⟩, hpass⟩
    simp only [ne_eq, reduceCtorEq, not_false_eq_true, passes_word, passes_nil] at hpass
    obtain ⟨hk, rfl, rfl⟩ := hpass
    exact ⟨hk, rfl, rfl⟩

theorem reads_parameter {p : Parameter} :
    Reads parameter s.advance p t ↔ Spans IsParameter s p t := by
  simp only [parameter, reads_current_bind, current_advance]
  constructor
  · intro h
    split at h
    · rename_i hk
      simp only [reads_expectName_bind, reads_pure, current_advance] at h
      obtain ⟨hi, rfl, rfl⟩ := h
      exact ⟨[⟨.percent, s.ahead.literal⟩, _], .group, by simp [hk, hi]⟩
    · rename_i hk
      obtain ⟨rfl, rfl⟩ := reads_pure.mp h
      exact ⟨_, .register, by simp [hk]⟩
    · exact absurd h not_reads_fail
  · rintro ⟨ws, hX, hpass⟩
    cases hX with
    | register =>
      simp only [ne_eq, reduceCtorEq, not_false_eq_true, passes_word, passes_nil] at hpass
      obtain ⟨hk, rfl, rfl⟩ := hpass
      simp [hk]
    | group =>
      simp only [ne_eq, reduceCtorEq, not_false_eq_true, passes_word, passes_nil] at hpass
      obtain ⟨hk, -, hi, rfl, rfl⟩ := hpass
      simp [hk, hi]

theorem readsItem_registerName (n : Nat) : ReadsItem n registerName IsRegister where
  spans_of_reads _ h := reads_registerName.mp h
  reads_of_spans _ h _ := reads_registerName.mpr h
  ne_rightParen := by
    rintro s x t ⟨ws, ⟨⟩, hpass⟩
    simp [((passes_word (by simp)).mp hpass).1]

theorem readsItem_parameter (n : Nat) : ReadsItem n parameter IsParameter where
  spans_of_reads _ h := reads_parameter.mp h
  reads_of_spans _ h _ := reads_parameter.mpr h
  ne_rightParen := by
    rintro s p t ⟨ws, hX, hpass⟩
    cases hX with
    | register => simp [((passes_word (by simp)).mp hpass).1]
    | group => simp [((passes_word (by simp)).mp hpass).1]

theorem readsItem_expression (n : Nat) : ReadsItem n expression (IsExpression n) where
  spans_of_reads hn h := hn ▸ (reads_expression.mp h).1
  reads_of_spans hn h hahead := reads_expression.mpr ⟨hn ▸ h, hahead⟩
  ne_rightParen h heq := by
    have := startsOperand_of_spans h
    rw [heq] at this
    exact absurd this (by decide)

end Grammar
end CircuitText
