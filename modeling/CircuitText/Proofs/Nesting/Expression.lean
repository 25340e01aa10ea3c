import CircuitText.Proofs.Nesting.Meeting
import CircuitText.Proofs.Parsing.Failing
import CircuitText.Proofs.Parsing.Lists

/-!
# Expressions that are nested too deep

An expression is refused for its nesting just where following the marked grammar meets a word for
which no level is left, and it is that word which is blamed.  What was read before it is known from
the laws of successful reading: an operand that is crossed in the grammar is one that is read, up to
the infix operator that has to follow it, and the operator is there because the word is met behind
it.

* `Fault.tooDeep`, `refuses_nest` --- the fault, and where the limit is felt;
* `refuses_operand`, `refuses_operations`, `refuses_expression` --- expressions;
* `refuses_listWithComma`, `refuses_list` --- lists of them.
-/

namespace CircuitText

/-- What stands there is nested too deep. -/
def Fault.tooDeep (σ : Span) : Fault := ⟨.nestedTooDeep, σ⟩

example : (Cause.category .nestedTooDeep, Cause.message .nestedTooDeep) =
    (.semantic, "nested more than 128 levels deep") := by decide

namespace Grammar

open scoped Computability

variable {α β : Type} {s t u : State} {σ : Span} {n : Nat} {k : Kind}

@[simp] theorem tooDeep_ne_expected {t : Token} : Fault.tooDeep σ ≠ .expected k t := by
  simp [Fault.tooDeep, Fault.expected]

@[simp] theorem tooDeep_ne_unexpected {t : Token} {place : String} :
    Fault.tooDeep σ ≠ .unexpected t place := by
  simp [Fault.tooDeep, Fault.unexpected]

/-- What is nested is refused at the word that opens the level, which is the current one, or
inside. -/
theorem refuses_nested {p : Production α} :
    Fails (nested p) s (.tooDeep σ) ↔
      s.levels = 0 ∧ s.current.span = σ ∨
        ∃ m, s.levels = m + 1 ∧ Fails p s.deeper (.tooDeep σ) := by
  rw [fails_nested, lt_nestingLimit_iff, exists_and_right, Fault.tooDeep, Fault.mk.injEq]
  rcases h : s.levels with _ | m
  · simp [eq_comm]
  · simp

/-- If what is inside is refused where the marked grammar says, then so is what opens the level. -/
theorem refuses_nest {p : Production α} {X : Language Marked} [Possible X] (hk : k ≠ .endOfText)
    (hahead : s.ahead.kind = k) (h : ∀ m, s.levels = m + 1 →
      (Fails p s.advance.deeper (.tooDeep σ) ↔ Meets m X s.advance σ)) :
    Fails (nested p) s.advance (.tooDeep σ) ↔ Meets s.levels (nest k X) s σ := by
  rw [meets_nest hk, and_iff_right hahead, refuses_nested, levels_advance, current_advance]
  exact or_congr Iff.rfl (exists_congr fun m => and_congr_right fun hm => h m hm)

theorem levels_advance_deeper (h : s.levels = n + 1) : s.advance.deeper.levels = n :=
  levels_deeper (by rw [levels_advance, h])

theorem SpansOperand.levels {e : Expression} (h : SpansOperand s e t) : t.levels = s.levels := by
  obtain ⟨ws, -, hpass, -⟩ := h
  exact hpass.levels

/-! ## Operands -/

/-- With `n` levels left, an expression is refused at the first word for which no level is left. -/
def RefusesExpressions (n : Nat) : Prop := ∀ {s σ}, s.levels = n →
  (Fails expression s.advance (.tooDeep σ) ↔ Meets n Marked.expressions s σ)

/-- The rule for operands, for the word for which no level is left. -/
theorem meets_operand :
    Meets n (Marked.operand Marked.expressions) s σ ↔
      Meets n (nest .leftParen Marked.expressions) s σ ∨
        Meets n (nest .prefixOp Marked.expressions) s σ := by
  simp only [Marked.operand, Marked.closed, meets_add, meets_mul, not_meets_plain, and_false,
    exists_false, or_false, false_or]

/-- An operand is refused at the first word for which no level is left. -/
theorem refuses_operand (ih : ∀ m, s.levels = m + 1 → RefusesExpressions m) :
    Fails (operandOver expression) s.advance (.tooDeep σ) ↔
      Meets s.levels (Marked.operand Marked.expressions) s σ := by
  have hinner : ∀ {k : Kind} {q : Expression → Production Expression}, k ≠ .endOfText →
      s.ahead.kind = k → (∀ e t, ¬ Fails (q e) t (.tooDeep σ)) →
        (Fails (nested (advance >>= fun _ => expression >>= q)) s.advance (.tooDeep σ) ↔
          Meets s.levels (nest k Marked.expressions) s σ) := by
    intro k q hk hahead hq
    refine refuses_nest hk hahead fun m hm => ?_
    rw [fails_advance_bind, fails_bind, ih m hm (levels_advance_deeper hm), meets_deeper]
    simp [hq]
  rw [meets_operand, operandOver, fails_current_bind, current_advance]
  split
  · rename_i hk
    simp [meets_nest, hk]
  · rename_i hk
    simp [meets_nest, hk, bit, Fault.tooDeep]
  · rename_i hk
    rw [hinner (by simp) hk (by simp)]
    simp [meets_nest, hk]
  · rename_i hk
    rw [hinner (by simp) hk (by simp)]
    simp [meets_nest, hk]
  · rename_i hk
    simp [meets_nest, hk]
  · rename_i h₁ h₂ h₃ h₄ h₅
    simp [meets_nest, show s.ahead.kind ≠ .leftParen from h₃, show s.ahead.kind ≠ .prefixOp from h₄]

/-! ## Chains of operands -/

/-- In front of an infix operator, the operands that are crossed are those that are read. -/
theorem crosses_closed (hk : t.ahead.kind = .infixOp) :
    Crosses (within s.levels (Marked.closed Marked.expressions)) s t ↔ ∃ e, SpansOperand s e t := by
  rw [within_closed fun m _ => within_expressions m]
  constructor
  · rintro ⟨ws, ⟨e, operand, hclosed⟩, hpass⟩
    exact ⟨e, ws, operand, hpass, fun hb => absurd hb hclosed⟩
  · rintro ⟨e, ws, operand, hpass, hahead⟩
    exact ⟨ws, ⟨e, operand, fun hb => hahead hb hk⟩, hpass⟩

/-- The rule for expressions, for the word for which no level is left. -/
theorem meets_expressions :
    Meets n Marked.expressions s σ ↔ Meets n (Marked.operand Marked.expressions) s σ ∨
      ∃ t, Crosses (within n (Marked.closed Marked.expressions)) s t ∧ t.ahead.kind = .infixOp ∧
        Meets n Marked.expressions t.advance σ := by
  conv_lhs => rw [Marked.expressions_eq]
  have hclosed : Meets n (Marked.closed Marked.expressions) s σ →
      Meets n (Marked.operand Marked.expressions) s σ := fun h => meets_add.mpr (.inl h)
  rw [Marked.expression, meets_add, meets_mul, meets_mul]
  simp only [not_meets_plain, and_false, exists_false, or_false, map_mul, within_plain,
    crosses_mul, ne_eq, reduceCtorEq, not_false_eq_true, crosses_ofKind]
  constructor
  · rintro (h | h | ⟨_, ⟨t, hcross, hk, rfl⟩, h⟩)
    · exact .inl h
    · exact .inl (hclosed h)
    · exact .inr ⟨t, hcross, hk, h⟩
  · rintro (h | ⟨t, hcross, hk, h⟩)
    · exact .inl h
    · exact .inr (.inr ⟨_, ⟨t, hcross, hk, rfl⟩, h⟩)

theorem fails_expression {f : Fault} :
    Fails expression s f ↔ Fails (operandOver expression) s f ∨
      ∃ e t, Reads (operandOver expression) s e t ∧ Fails operations t f := by
  conv_lhs => rw [expression_eq, expressionOver, fails_bind]
  simp only [tailOver_eq, fails_bind_pure]

theorem fails_operationOver {inner : Production Expression} {f : Fault} :
    Fails (operationOver inner) s f ↔ Fails (operandOver inner) s.advance f := by
  rw [operationOver, fails_current_bind, fails_advance_bind, fails_bind_pure]

/-- An operand with operations behind it is refused where the expression that they make is, if this
is so of the operations. -/
theorem refuses_operand_operations (ih : ∀ m, s.levels = m + 1 → RefusesExpressions m)
    (hmore : ∀ {e t}, SpansOperand s e t → (Fails operations t (.tooDeep σ) ↔
      t.ahead.kind = .infixOp ∧ Meets s.levels Marked.expressions t.advance σ)) :
    (Fails (operandOver expression) s.advance (.tooDeep σ) ∨
        ∃ e t, SpansOperand s e t ∧ Fails operations t (.tooDeep σ)) ↔
      Meets s.levels Marked.expressions s σ := by
  rw [refuses_operand ih, meets_expressions]
  refine or_congr Iff.rfl ?_
  constructor
  · rintro ⟨e, t, hspan, hfails⟩
    obtain ⟨hoperator, hmeets⟩ := (hmore hspan).mp hfails
    exact ⟨t, (crosses_closed hoperator).mpr ⟨e, hspan⟩, hoperator, hmeets⟩
  · rintro ⟨t, hcross, hoperator, hmeets⟩
    obtain ⟨e, hspan⟩ := (crosses_closed hoperator).mp hcross
    exact ⟨e, t, hspan, (hmore hspan).mpr ⟨hoperator, hmeets⟩⟩

/-- Behind an operand, what is refused is refused in the expression after an infix operator. -/
theorem refuses_operations (ih : ∀ m, s.levels = m + 1 → RefusesExpressions m) :
    Fails operations s (.tooDeep σ) ↔
      s.ahead.kind = .infixOp ∧ Meets s.levels Marked.expressions s.advance σ := by
  induction hrem : s.remaining using Nat.strongRecOn generalizing s with
  | ind r ihr =>
    rw [fails_whileAhead, beq_iff_eq]
    refine and_congr_right fun hk => ?_
    have hlt : s.advance.remaining < s.remaining := s.remaining_advance_lt (by simp [hk])
    have hread : ∀ {o e t}, Reads (operationOver expression) s.advance (o, e) t ↔
        o = s.ahead.literal ∧ SpansOperand s.advance e t :=
      reads_operation fun m _ => readsExpressions m
    have hlevels := levels_advance s
    rw [← hlevels] at ih
    rw [fails_operationOver, ← hlevels, ← refuses_operand_operations ih fun {e t} hspan => ?_]
    · simp only [Prod.exists, hread, and_assoc, exists_and_left, exists_eq_left]
    · -- behind the operand the loop goes on as it began, with the same levels
      have hle := (hread.mpr ⟨rfl, hspan⟩).remaining_le
      rw [ihr t.remaining (by omega) (by rwa [hspan.levels]) rfl, hspan.levels]

/-! ## Expressions -/

theorem refusesExpressions (n : Nat) : RefusesExpressions n := by
  induction n using Nat.strongRecOn with
  | ind n ihn =>
    intro s σ hn
    subst hn
    have ih : ∀ m, s.levels = m + 1 → RefusesExpressions m := fun m hm => ihn m (by omega)
    rw [← refuses_operand_operations ih fun {e t} hspan => ?_]
    · simp only [fails_expression, reads_operand fun m _ => readsExpressions m]
    · rw [refuses_operations (by rwa [hspan.levels]), hspan.levels]

/-- An expression is refused at the first word for which no level is left. -/
theorem refuses_expression :
    Fails expression s.advance (.tooDeep σ) ↔ Meets s.levels Marked.expressions s σ :=
  refusesExpressions s.levels rfl

/-- Behind an operand, what is refused is refused in the expression after an infix operator. -/
theorem refuses_expressionTail {left : Expression} :
    Fails (expressionTail left) s (.tooDeep σ) ↔
      s.ahead.kind = .infixOp ∧ Meets s.levels Marked.expressions s.advance σ := by
  rw [expressionTail, tailOver_eq, fails_bind_pure,
    refuses_operations fun m _ => refusesExpressions m]

/-! ## Lists of expressions -/

/-- A list is refused for its first item or for what follows it. -/
theorem refuses_listWithComma_iff {item : Production α} :
    Fails (listWithComma item) s (.tooDeep σ) ↔ s.ahead.kind ≠ .rightParen ∧
      (Fails item s.advance (.tooDeep σ) ∨
        ∃ a t, Reads item s.advance a t ∧ Fails (moreItems item) t (.tooDeep σ)) := by
  simp [listWithComma, fails_bind (p := item), fails_bind (p := moreItems item)]

/-- A list whose items open no level opens none. -/
theorem not_refuses_list {item : Production α}
    (h : ∀ {t : State}, ¬ Fails item t (.tooDeep σ)) : ¬ Fails (list item) s (.tooDeep σ) := by
  have hmore : ∀ {t : State}, ¬ Fails (moreItems item) t (.tooDeep σ) := by
    intro t hfails
    obtain ⟨u, hu⟩ := exists_fails_of_whileAhead hfails
    simp [itemAfterComma, h] at hu
  simp [list, refuses_listWithComma_iff, h, hmore]

theorem fails_itemAfterComma {item : Production α} {f : Fault} :
    Fails (itemAfterComma item) s f ↔ s.ahead.kind ≠ .rightParen ∧ Fails item s.advance f := by
  simp [itemAfterComma]

/-- The rule for what follows an item of a list, for the word for which no level is left. -/
theorem meets_moreItems {X : Language Marked} [Possible X] :
    Meets n (Marked.moreItems X) s σ ↔ s.ahead.kind = .comma ∧
      (Meets n X s.advance σ ∨
        ∃ t, Crosses (within n X) s.advance t ∧ Meets n (Marked.moreItems X) t σ) := by
  have heq : Marked.moreItems X = 1 + plain (ofKind .comma) +
      plain (ofKind .comma) * (X * Marked.moreItems X) := by
    unfold Marked.moreItems
    conv_lhs => rw [← Language.one_add_self_mul_kstar_eq_kstar, add_mul, one_mul]
    simp only [mul_assoc]
  conv_lhs => rw [heq]
  simp only [meets_add, meets_mul, not_meets_one, not_meets_plain, within_plain, false_or, ne_eq,
    reduceCtorEq, not_false_eq_true, crosses_ofKind, and_assoc, exists_and_left, exists_eq_left]

/-- The word ahead is the first of an expression. -/
theorem startsOperand_of_meets (h : Meets n Marked.expressions s σ) :
    startsOperand s.ahead.kind = true := by
  obtain ⟨m, vs, hvs⟩ := exists_first_of_meets h
  rw [within_expressions] at hvs
  obtain ⟨e, he⟩ := hvs
  obtain ⟨w, vs, heq, hw⟩ := exists_first_of_isExpression he
  obtain ⟨rfl, -⟩ := List.cons.inj heq
  exact hw

theorem ne_rightParen_of_meets (h : Meets n Marked.expressions s σ) :
    s.ahead.kind ≠ .rightParen := by
  intro heq
  have := startsOperand_of_meets h
  rw [heq] at this
  cases this

/-- What follows an item is refused at the first word for which no level is left. -/
theorem refuses_moreItems :
    Fails (moreItems expression) s (.tooDeep σ) ↔
      Meets s.levels (Marked.moreItems Marked.expressions) s σ := by
  induction hrem : s.remaining using Nat.strongRecOn generalizing s with
  | ind r ihr =>
    rw [fails_whileAhead, beq_iff_eq, meets_moreItems, within_expressions]
    refine and_congr_right fun hk => ?_
    have hlt : s.advance.remaining < s.remaining := s.remaining_advance_lt (by simp [hk])
    have hitem : Fails (itemAfterComma expression) s.advance (.tooDeep σ) ↔
        Meets s.levels Marked.expressions s.advance σ := by
      rw [fails_itemAfterComma, refuses_expression, levels_advance]
      exact and_iff_right_of_imp ne_rightParen_of_meets
    rw [hitem]
    refine or_congr Iff.rfl ?_
    simp only [crosses_wordsOf]
    -- behind an item the loop goes on as it began, with the same levels
    have hmore : ∀ {e t}, Reads (itemAfterComma expression) s.advance (some e) t →
        (Fails (moreItems expression) t (.tooDeep σ) ↔
          Meets s.levels (Marked.moreItems Marked.expressions) t σ) := by
      intro e t hread
      have hle := hread.remaining_le
      have hspan := (reads_expression.mp (reads_itemAfterComma_some.mp hread).2).1
      have hlevels : t.levels = s.levels := by rw [hspan.levels, levels_advance]
      rw [ihr t.remaining (by omega) rfl, hlevels]
    constructor
    · rintro ⟨_ | e, t, hread, hfails⟩
      · obtain ⟨hclose, rfl⟩ := reads_itemAfterComma_none.mp hread
        have := (fails_whileAhead.mp hfails).1
        simp [hclose] at this
      · have hspan := (reads_expression.mp (reads_itemAfterComma_some.mp hread).2).1
        rw [levels_advance] at hspan
        exact ⟨t, ⟨e, hspan⟩, (hmore hread).mp hfails⟩
    · rintro ⟨t, ⟨e, hspan⟩, hmeets⟩
      have hcomma := (meets_moreItems.mp hmeets).1
      have hread : Reads (itemAfterComma expression) s.advance (some e) t := by
        rw [← levels_advance] at hspan
        refine reads_itemAfterComma_some.mpr ⟨?_, reads_expression.mpr ⟨hspan, by simp [hcomma]⟩⟩
        exact (readsItem_expression _).ne_rightParen hspan
      exact ⟨some e, t, hread, (hmore hread).mpr hmeets⟩

/-- The rule for lists of expressions, for the word for which no level is left. -/
theorem meets_list :
    Meets n (Marked.list Marked.expressions) s σ ↔ s.ahead.kind = .leftParen ∧
      (Meets n Marked.expressions s.advance σ ∨
        ∃ t, (∃ e, Spans (IsExpression n) s.advance e t) ∧
          Meets n (Marked.moreItems Marked.expressions) t σ) := by
  rw [Marked.list, meets_bracketed, meets_add, or_iff_right not_meets_one, meets_mul,
    within_expressions]
  simp only [crosses_wordsOf]

/-- A list of expressions is refused at the first word for which no level is left. -/
theorem refuses_listWithComma (hk : s.ahead.kind = .leftParen) :
    Fails (listWithComma expression) s.advance (.tooDeep σ) ↔
      Meets s.levels (Marked.list Marked.expressions) s σ := by
  have hread : ∀ {e t}, Reads expression s.advance.advance e t ↔
      Spans (IsExpression s.levels) s.advance e t ∧ t.ahead.kind ≠ .infixOp := by
    intro e t
    rw [reads_expression, levels_advance]
  have hmore : ∀ {e t}, Spans (IsExpression s.levels) s.advance e t →
      (Fails (moreItems expression) t (.tooDeep σ) ↔
        Meets s.levels (Marked.moreItems Marked.expressions) t σ) := by
    intro e t hspan
    rw [refuses_moreItems, hspan.levels, levels_advance]
  rw [meets_list, and_iff_right hk, refuses_listWithComma_iff, refuses_expression, levels_advance]
  constructor
  · rintro ⟨-, hmeets | ⟨e, t, he, hfails⟩⟩
    · exact .inl hmeets
    · have hspan := (hread.mp he).1
      exact .inr ⟨t, ⟨e, hspan⟩, (hmore hspan).mp hfails⟩
  · rintro (hmeets | ⟨t, ⟨e, hspan⟩, hmeets⟩)
    · exact ⟨ne_rightParen_of_meets hmeets, .inl hmeets⟩
    · have hcomma := (meets_moreItems.mp hmeets).1
      exact ⟨(readsItem_expression _).ne_rightParen hspan,
        .inr ⟨e, t, hread.mpr ⟨hspan, by simp [hcomma]⟩, (hmore hspan).mpr hmeets⟩⟩

theorem refuses_list (hk : s.ahead.kind = .leftParen) :
    Fails (list expression) s.advance (.tooDeep σ) ↔
      Meets s.levels (Marked.list Marked.expressions) s σ := by
  rw [list, fails_bind_pure, refuses_listWithComma hk]

end Grammar
end CircuitText
