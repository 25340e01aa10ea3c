import CircuitText.Proofs.Faults.FirstWord
import CircuitText.Proofs.Nesting.Marks

/-!
# The grammar with marks

The rules of the grammar once more, without a nesting limit and with marks on the words that open a
level.  These are the prefix operators, the brackets around operands and the braces of clocks; a
phrase with `nest` in its rule opens a level, and a phrase with `plain` in its rule opens none.  The
brackets of lists, the one at the front of a pipe and the braces of circuits are plain.  Expressions
and blocks stand in their own rules and are the least solutions of them.

That this is the grammar is seen from `within`: what gets by with `n` levels here is what may open
`n` levels there.  So a list of words has marks just when it is a phrase of any number of levels.

* `Marked.expressions`, `Marked.statement`, `Marked.blocks`, `Marked.programs` --- the rules;
* `within_expressions`, `within_blocks`, `within_programs` --- the phrases of so many levels;
* `exists_marks_iff` --- the programs without a limit.
-/

namespace CircuitText
namespace Grammar

open scoped Computability

variable {α : Type} {n : Nat} {ws : List Word}

/-! ## The rules -/

namespace Marked

variable {X Y B C : Language Marked}

/-- An operand that is no prefix operator's; `X` are the expressions. -/
def closed (X : Language Marked) : Language Marked :=
  plain (wordsOf (OperandOver fun _ _ => False)) + nest .leftParen X * plain (ofKind .rightParen)

/-- An operand. -/
def operand (X : Language Marked) : Language Marked := closed X + nest .prefixOp X

/-- An operand, which an infix operator and an expression may follow unless it is a prefix
operator's. -/
def expression (X : Language Marked) : Language Marked :=
  operand X + closed X * plain (ofKind .infixOp) * X

@[gcongr]
theorem closed_mono (h : X ≤ Y) : closed X ≤ closed Y := by
  unfold closed
  gcongr

@[gcongr]
theorem expression_mono (h : X ≤ Y) : expression X ≤ expression Y := by
  unfold expression operand
  gcongr

/-- The expressions. -/
def expressions : Language Marked :=
  OrderHom.lfp ⟨expression, fun _ _ h => expression_mono h⟩

theorem expressions_eq : expressions = expression expressions :=
  (OrderHom.map_lfp ⟨expression, fun _ _ h => expression_mono h⟩).symm

/-- A phrase in brackets that open no level. -/
def bracketed (X : Language Marked) : Language Marked :=
  plain (ofKind .leftParen) * X * plain (ofKind .rightParen)

/-- What may follow an item of a list. -/
def moreItems (X : Language Marked) : Language Marked :=
  (plain (ofKind .comma) * X)∗ * (1 + plain (ofKind .comma))

/-- A list in brackets. -/
def list (X : Language Marked) : Language Marked := bracketed (1 + X * moreItems X)

/-- The phrases of `X` that do not begin with a bracket. -/
def bare (X : Language Marked) : Language Marked :=
  {ms | ms ∈ X ∧ ¬ Begins .leftParen (ms.map Prod.fst)}

/-- The inputs of a pipe; `X` are the expressions. -/
def inputs (X : Language Marked) : Language Marked :=
  bare X + list X + bracketed X * plain (ofKind .infixOp) * X

/-- A statement; `X` are the expressions and `B` the blocks. -/
def statement (X B : Language Marked) : Language Marked :=
  plain (ofKind .percent * ofKind .ident * wordsOf (Bracketed (Items IsParameter)) *
      ofKind .semicolon) +
    plain (ofKind .ident) * list X * plain (wordsOf IsCallOutputs * ofKind .semicolon) +
    inputs X * plain (ofKind .arrow * wordsOf IsOutputs * ofKind .semicolon) +
    plain (ofKind .clock * wordsOf IsPeriod * wordsOf IsCounter) * nest .leftBrace B *
      plain (ofKind .rightBrace)

@[gcongr]
theorem statement_mono (h : B ≤ C) : statement X B ≤ statement X C := by
  unfold statement
  gcongr

/-- The statements in braces. -/
def blocks : Language Marked :=
  OrderHom.lfp ⟨fun B => (statement expressions B)∗, fun _ _ h => kstar_mono (statement_mono h)⟩

theorem blocks_eq : blocks = (statement expressions blocks)∗ :=
  (OrderHom.map_lfp
    ⟨fun B => (statement expressions B)∗, fun _ _ h => kstar_mono (statement_mono h)⟩).symm

/-- The statements. -/
abbrev statements : Language Marked := statement expressions blocks

/-- The circuits and the references to other texts. -/
def items : Language Marked :=
  plain (ofKind .circuit * ofKind .ident * wordsOf IsRegisters * ofKind .leftBrace) * blocks *
      plain (ofKind .rightBrace) +
    plain (ofKind .inclusion * (1 + ofKind .name) * ofKind .string * ofKind .semicolon)

/-- The programs. -/
def programs : Language Marked := plain (wordsOf IsProgramName) * items∗

end Marked

/-! ## The rules of so many levels -/

/-- The operands that are no prefix operator's, as words. -/
def closedOperands (X : Phrase Expression) : Language Word :=
  {ws | ∃ e, OperandOver X ws e ∧ ¬ Begins .prefixOp ws}

theorem closedOperands_eq (X : Phrase Expression) :
    closedOperands X = wordsOf (OperandOver fun _ _ => False) +
      ofKind .leftParen * wordsOf X * ofKind .rightParen := by
  ext ws
  simp only [mul_assoc, Language.mem_add, mem_ofKind_mul, mem_wordsOf_mul, mem_ofKind, existsAndEq,
    and_true]
  constructor
  · rintro ⟨e, operand, hclosed⟩
    cases operand with
    | register => exact .inl ⟨_, .register⟩
    | zero => exact .inl ⟨_, .zero⟩
    | one => exact .inl ⟨_, .one⟩
    | group => exact .inl ⟨_, .group⟩
    | bracketed inside =>
      obtain ⟨inside⟩ := inside
      exact .inr ⟨_, _, _, _, inside, rfl⟩
    | unary => exact absurd ⟨_, _, rfl, rfl⟩ hclosed
  · rintro (⟨e, operand⟩ | ⟨l, vs, e, r, inside, rfl⟩)
    · refine ⟨e, operand.imp fun h => h.elim, ?_⟩
      rintro ⟨w, vs, rfl, hw⟩
      cases operand with
      | unary operand => exact operand
      | bracketed inside =>
        obtain ⟨inside⟩ := inside
        exact inside
      | _ => cases hw
    · refine ⟨e, .bracketed (.mk inside), ?_⟩
      rintro ⟨w, vs, heq, hw⟩
      obtain ⟨rfl, -⟩ := List.cons.inj heq
      cases hw

theorem wordsOf_operandOver (X : Phrase Expression) :
    wordsOf (OperandOver X) = closedOperands X + ofKind .prefixOp * wordsOf X := by
  ext ws
  simp only [Language.mem_add, mem_ofKind_mul, mem_wordsOf]
  constructor
  · rintro ⟨e, operand⟩
    by_cases hbegins : Begins .prefixOp ws
    · obtain ⟨⟨k, l⟩, vs, rfl, rfl⟩ := hbegins
      cases operand with
      | unary operand => exact .inr ⟨l, vs, ⟨_, operand⟩, rfl⟩
      | bracketed inside => cases inside
    · exact .inl ⟨e, operand, hbegins⟩
  · rintro (⟨e, operand, -⟩ | ⟨l, vs, ⟨e, operand⟩, rfl⟩)
    · exact ⟨e, operand⟩
    · exact ⟨_, .unary operand⟩

theorem wordsOf_expressionOver (X : Phrase Expression) :
    wordsOf (ExpressionOver X) = wordsOf (OperandOver X) +
      closedOperands X * ofKind .infixOp * wordsOf (ExpressionOver X) := by
  ext ws
  simp only [mul_assoc, Language.mem_add, Language.mem_mul (l := closedOperands X), mem_ofKind_mul,
    mem_wordsOf]
  constructor
  · rintro ⟨e, h⟩
    cases h with
    | operand operand => exact .inl ⟨e, operand⟩
    | binary operand closed rest =>
      exact .inr ⟨_, ⟨_, operand, closed⟩, _, ⟨_, _, ⟨_, rest⟩, rfl⟩, rfl⟩
  · rintro (⟨e, operand⟩ | ⟨us, ⟨left, operand, closed⟩, _, ⟨o, vs, ⟨right, rest⟩, rfl⟩, rfl⟩)
    · exact ⟨e, .operand operand⟩
    · exact ⟨_, .binary operand closed rest⟩

theorem wordsOf_bracketed (X : Phrase α) :
    wordsOf (Bracketed X) = ofKind .leftParen * wordsOf X * ofKind .rightParen := by
  ext ws
  simp only [mul_assoc, mem_ofKind_mul, mem_wordsOf_mul, mem_ofKind, existsAndEq, and_true]
  constructor
  · rintro ⟨a, ⟨inside⟩⟩
    exact ⟨_, _, _, _, inside, rfl⟩
  · rintro ⟨l, vs, a, r, inside, rfl⟩
    exact ⟨a, .mk inside⟩

theorem wordsOf_many (X : Phrase α) : wordsOf (Many X) = (wordsOf X)∗ := by
  ext ws
  constructor
  · rintro ⟨as, h⟩
    induction h with
    | nil => exact Language.nil_mem_kstar _
    | cons first more ih =>
      rw [← Language.one_add_self_mul_kstar_eq_kstar]
      exact .inr ⟨_, ⟨_, first⟩, _, ih, rfl⟩
  · rintro ⟨parts, rfl, hparts⟩
    induction parts with
    | nil => exact ⟨[], .nil⟩
    | cons part parts ih =>
      obtain ⟨⟨a, ha⟩, hparts⟩ := List.forall_mem_cons.mp hparts
      obtain ⟨as, has⟩ := ih hparts
      exact ⟨a :: as, .cons ha has⟩

theorem wordsOf_moreItems (X : Phrase α) :
    wordsOf (MoreItems X) = (ofKind .comma * wordsOf X)∗ * (1 + ofKind .comma) := by
  refine (Language.self_eq_mul_add_iff ?_).mp ?_
  · simp [mem_ofKind_mul]
  ext ws
  simp only [mul_assoc, Language.mem_add, mem_ofKind_mul, mem_wordsOf_mul, mem_ofKind, existsAndEq,
    mem_wordsOf, Language.mem_one, and_true]
  constructor
  · rintro ⟨as, h⟩
    cases h with
    | nil => exact .inr (.inl rfl)
    | comma => exact .inr (.inr ⟨_, rfl⟩)
    | cons item more => exact .inl ⟨_, _, _, _, ⟨item, _, more⟩, rfl⟩
  · rintro (⟨l, us, a, vs, ⟨item, as, more⟩, rfl⟩ | rfl | ⟨l, rfl⟩)
    · exact ⟨a :: as, .cons item more⟩
    · exact ⟨[], .nil⟩
    · exact ⟨[], .comma⟩

theorem wordsOf_items (X : Phrase α) :
    wordsOf (Items X) = 1 + wordsOf X * wordsOf (MoreItems X) := by
  ext ws
  simp only [Language.mem_add, Language.mem_one, mem_wordsOf_mul, mem_wordsOf]
  constructor
  · rintro ⟨as, h⟩
    cases h with
    | nil => exact .inl rfl
    | cons item more => exact .inr ⟨_, _, item, _, ⟨_, more⟩, rfl⟩
  · rintro (rfl | ⟨us, a, item, vs, ⟨as, more⟩, rfl⟩)
    · exact ⟨[], .nil⟩
    · exact ⟨a :: as, .cons item more⟩

theorem mem_wordsOf_isInputs :
    ws ∈ wordsOf (IsInputs n) ↔ (ws ∈ wordsOf (IsExpression n) ∧ ¬ Begins .leftParen ws) ∨
      ws ∈ wordsOf (Bracketed (Items (IsExpression n))) ∨
      ws ∈ wordsOf (Bracketed (IsExpression n)) * ofKind .infixOp * wordsOf (IsExpression n) := by
  simp only [mul_assoc, mem_wordsOf_mul, mem_ofKind_mul, mem_wordsOf, existsAndEq, and_true]
  constructor
  · rintro ⟨es, h⟩
    cases h with
    | single expression bare => exact .inl ⟨⟨_, expression⟩, bare⟩
    | listed list => exact .inr (.inl ⟨_, list⟩)
    | binary operand rest => exact .inr (.inr ⟨_, _, operand, _, _, ⟨_, rest⟩, rfl⟩)
  · rintro (⟨⟨e, expression⟩, bare⟩ | ⟨es, list⟩ | ⟨us, left, operand, o, vs, ⟨right, rest⟩, rfl⟩)
    · exact ⟨_, .single expression bare⟩
    · exact ⟨es, .listed list⟩
    · exact ⟨_, .binary operand rest⟩

theorem wordsOf_statementOver (body : Phrase (List Statement)) :
    wordsOf (StatementOver n body) =
      ofKind .percent * ofKind .ident * wordsOf (Bracketed (Items IsParameter)) *
          ofKind .semicolon +
        ofKind .ident * wordsOf (Bracketed (Items (IsExpression n))) *
          (wordsOf IsCallOutputs * ofKind .semicolon) +
        wordsOf (IsInputs n) * (ofKind .arrow * wordsOf IsOutputs * ofKind .semicolon) +
        ofKind .clock * wordsOf IsPeriod * wordsOf IsCounter *
          (ofKind .leftBrace * wordsOf body) * ofKind .rightBrace := by
  ext ws
  simp only [mul_assoc, Language.mem_add, mem_ofKind_mul, mem_wordsOf_mul, mem_ofKind, existsAndEq,
    and_true, and_assoc, or_assoc]
  constructor
  · rintro ⟨st, h⟩
    cases h with
    | group members => exact .inl ⟨_, _, _, _, _, members, rfl⟩
    | call inputs outputs => exact .inr (.inl ⟨_, _, _, _, _, _, inputs, outputs, rfl⟩)
    | pipe inputs outputs => exact .inr (.inr (.inl ⟨_, _, inputs, _, _, _, _, outputs, rfl⟩))
    | clock delay counter block =>
      exact .inr (.inr (.inr ⟨_, _, _, _, _, _, _, _, _, ⟨_, _, rfl, delay⟩, counter, block, rfl⟩))
  · rintro (⟨p, x, us, ps, s, members, rfl⟩ | ⟨x, us, es, vs, os, s, inputs, outputs, rfl⟩ |
      ⟨us, es, inputs, a, vs, os, s, outputs, rfl⟩ |
      ⟨c, _, d, us, r, l, vs, b, r', ⟨m, u, rfl, delay⟩, counter, block, rfl⟩)
    · exact ⟨_, .group members⟩
    · exact ⟨_, .call inputs outputs⟩
    · exact ⟨_, .pipe inputs outputs⟩
    · exact ⟨_, .clock delay counter block⟩

theorem wordsOf_isItem (n : Nat) :
    wordsOf (IsItem n) =
      ofKind .circuit * ofKind .ident * wordsOf IsRegisters * ofKind .leftBrace *
          wordsOf (IsBlock n) * ofKind .rightBrace +
        ofKind .inclusion * (1 + ofKind .name) * ofKind .string * ofKind .semicolon := by
  ext ws
  simp only [mul_assoc, Language.mem_add, mem_ofKind_mul, mem_wordsOf_mul, mem_ofKind, existsAndEq,
    and_true, true_and, and_assoc, add_mul, mul_add, one_mul]
  constructor
  · rintro ⟨i, h⟩
    cases h with
    | circuit registers block => exact .inl ⟨_, _, _, _, _, _, _, _, registers, block, rfl⟩
    | byPath => exact .inr (.inl ⟨_, _, _, rfl⟩)
    | byName => exact .inr (.inr ⟨_, _, _, _, rfl⟩)
  · rintro (⟨c, x, us, ⟨ins, outs⟩, l, vs, b, r, registers, block, rfl⟩ | ⟨i, v, s, rfl⟩ |
      ⟨i, x, v, s, rfl⟩)
    · exact ⟨_, .circuit registers block⟩
    · exact ⟨_, .byPath⟩
    · exact ⟨_, .byName⟩

theorem wordsOf_isProgram (n : Nat) :
    wordsOf (IsProgram n) = wordsOf IsProgramName * wordsOf (Many (IsItem n)) := by
  ext ws
  rw [mem_wordsOf_mul]
  constructor
  · rintro ⟨p, ⟨named, content⟩⟩
    exact ⟨_, _, named, _, ⟨_, content⟩, rfl⟩
  · rintro ⟨us, x, named, vs, ⟨is, content⟩, rfl⟩
    exact ⟨_, .mk named content⟩

/-! ## The marked phrases that get by with so many levels -/

theorem within_bare {X : Language Marked} :
    ws ∈ within n (Marked.bare X) ↔ ws ∈ within n X ∧ ¬ Begins .leftParen ws := by
  constructor
  · rintro ⟨ms, ⟨hms, hbare⟩, hn, rfl⟩
    exact ⟨⟨ms, hms, hn, rfl⟩, hbare⟩
  · rintro ⟨⟨ms, hms, hn, rfl⟩, hbare⟩
    exact ⟨ms, ⟨hms, hbare⟩, hn, rfl⟩

theorem within_closed {X : Language Marked}
    (h : ∀ m, n = m + 1 → within m X = wordsOf (IsExpression m)) :
    within n (Marked.closed X) = closedOperands (Deeper IsExpression n) := by
  rw [Marked.closed, map_add, map_mul, within_plain, within_plain, within_nest h,
    closedOperands_eq]

theorem within_operand {X : Language Marked}
    (h : ∀ m, n = m + 1 → within m X = wordsOf (IsExpression m)) :
    within n (Marked.operand X) = wordsOf (OperandOver (Deeper IsExpression n)) := by
  rw [Marked.operand, map_add, within_closed h, within_nest h, wordsOf_operandOver]

/-- The rule for expressions has one solution only among those that get by with so many levels. -/
theorem within_expressions (n : Nat) : within n Marked.expressions = wordsOf (IsExpression n) := by
  induction n using Nat.strongRecOn with
  | ind n ih =>
    have hinner : ∀ m, n = m + 1 → within m Marked.expressions = wordsOf (IsExpression m) :=
      fun m hm => ih m (by omega)
    have hnil : [] ∉ closedOperands (Deeper IsExpression n) * ofKind .infixOp := by
      rintro ⟨ws, -, _, ⟨o, rfl⟩, heq⟩
      simp at heq
    have hmarked : within n Marked.expressions =
        closedOperands (Deeper IsExpression n) * ofKind .infixOp * within n Marked.expressions +
          wordsOf (OperandOver (Deeper IsExpression n)) := by
      conv_lhs => rw [Marked.expressions_eq]
      rw [Marked.expression, map_add, map_mul, map_mul, within_operand hinner,
        within_closed hinner, within_plain, add_comm]
    have hwords := wordsOf_expressionOver (Deeper IsExpression n)
    rw [add_comm] at hwords
    rw [(Language.self_eq_mul_add_iff hnil).mp hmarked, isExpression_eq,
      (Language.self_eq_mul_add_iff hnil).mp hwords]

theorem within_bracketed {X : Language Marked} {Y : Phrase α} (h : within n X = wordsOf Y) :
    within n (Marked.bracketed X) = wordsOf (Bracketed Y) := by
  rw [Marked.bracketed, map_mul, map_mul, within_plain, within_plain, h, wordsOf_bracketed]

theorem within_list (n : Nat) :
    within n (Marked.list Marked.expressions) =
      wordsOf (Bracketed (Items (IsExpression n))) := by
  refine within_bracketed ?_
  simp only [Marked.moreItems, map_mul, map_add, map_one, within_kstar, within_plain,
    within_expressions, wordsOf_items, wordsOf_moreItems]

theorem within_inputs (n : Nat) :
    within n (Marked.inputs Marked.expressions) = wordsOf (IsInputs n) := by
  ext ws
  rw [mem_wordsOf_isInputs, Marked.inputs, map_add, map_add, Language.mem_add, Language.mem_add,
    within_bare, within_list, or_assoc, map_mul, map_mul, within_plain,
    within_bracketed (within_expressions n), within_expressions]

theorem within_statement {B : Language Marked}
    (h : ∀ m, n = m + 1 → within m B = wordsOf (IsBlock m)) :
    within n (Marked.statement Marked.expressions B) = wordsOf (IsStatement n) := by
  rw [Marked.statement, wordsOf_statementOver]
  simp only [map_add, map_mul, within_plain, within_list, within_inputs, within_nest h]

theorem within_blocks (n : Nat) : within n Marked.blocks = wordsOf (IsBlock n) := by
  induction n using Nat.strongRecOn with
  | ind n ih =>
    rw [Marked.blocks_eq, within_kstar, within_statement fun m hm => ih m (by omega), isBlock_eq,
      wordsOf_many]

theorem within_statements (n : Nat) : within n Marked.statements = wordsOf (IsStatement n) :=
  within_statement fun m _ => within_blocks m

theorem within_items (n : Nat) : within n Marked.items = wordsOf (IsItem n) := by
  rw [Marked.items, wordsOf_isItem]
  simp only [map_add, map_mul, map_one, within_plain, within_blocks]

theorem within_programs (n : Nat) : within n Marked.programs = wordsOf (IsProgram n) := by
  rw [Marked.programs, map_mul, within_plain, within_kstar, within_items, wordsOf_isProgram,
    wordsOf_many]

/-- A list of words has marks just when it is a program, however deep. -/
theorem exists_marks_iff :
    (∃ ms ∈ Marked.programs, ms.map Prod.fst = ws) ↔ ∃ n p, IsProgram n ws p := by
  simp only [exists_map_fst_iff, within_programs, mem_wordsOf]

end Grammar
end CircuitText
