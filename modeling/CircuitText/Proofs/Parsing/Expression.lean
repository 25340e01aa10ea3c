import CircuitText.Proofs.Parsing.Reading

/-!
# Reading expressions is deriving them

An expression is read exactly when the words are one of the grammar and no infix operator follows;
`reads_expression` is the statement, and the proof is an induction on the levels that are left.

The production reads a chain of operands and operators in a loop and puts it together afterwards;
the grammar puts an operand, an operator and the rest of the expression together at once.  What
joins the two is that an operand which begins with a prefix operator leaves no infix operator
behind it, so that the loop ends there, as the rule for infix operators asks.

* `reads_operand` --- operands, once what is nested in them is known;
* `spans_of_reads_operations`, `reads_operations_of_expressionOver` --- from the loop to the rule,
  and back;
* `reads_expression`, `reads_expressionTail` --- expressions.
-/

namespace CircuitText
namespace Grammar

variable {s t u : State}

theorem lt_nestingLimit_iff : s.depth < nestingLimit ↔ ∃ n, s.levels = n + 1 := by
  unfold State.levels
  constructor
  · intro h
    exact ⟨nestingLimit - s.depth - 1, by omega⟩
  · rintro ⟨n, h⟩
    omega

theorem levels_deeper {n : Nat} (h : s.levels = n + 1) : s.deeper.levels = n := by
  unfold State.levels State.deeper at *
  dsimp only
  omega

/-- With `n` levels left, an expression is read exactly where there is one and no infix operator
follows. -/
def ReadsExpressions (n : Nat) : Prop := ∀ {s e t}, s.levels = n →
  (Reads expression s.advance e t ↔ Spans (IsExpression n) s e t ∧ t.ahead.kind ≠ .infixOp)

/-! ## Operands -/

/-- An operand between two states; one that begins with a prefix operator is not followed by an
infix operator. -/
def SpansOperand (s : State) (e : Expression) (t : State) : Prop :=
  ∃ ws, OperandOver (Deeper IsExpression s.levels) ws e ∧ Passes s ws t ∧
    (Begins .prefixOp ws → t.ahead.kind ≠ .infixOp)

theorem not_begins_cons {k : Kind} {w : Word} {ws : List Word} (h : w.kind ≠ k) :
    ¬ Begins k (w :: ws) := by
  rintro ⟨w', vs, hcons, hk⟩
  obtain ⟨rfl, -⟩ := List.cons.inj hcons
  exact h hk

/-- What is read at one level less, in the state before it. -/
theorem reads_inner {n : Nat} {e : Expression} (hn : s.levels = n + 1) (h : ReadsExpressions n) :
    Reads expression s.deeper.advance e u ↔
      ∃ t, Spans (IsExpression n) s e t ∧ t.ahead.kind ≠ .infixOp ∧ u = t.deeper := by
  rw [h (levels_deeper hn), spans_deeper]
  constructor
  · rintro ⟨⟨t, hspan, rfl⟩, hahead⟩
    exact ⟨t, hspan, hahead, rfl⟩
  · rintro ⟨t, hspan, hahead, rfl⟩
    exact ⟨⟨t, hspan, rfl⟩, hahead⟩

theorem spans_of_reads_operand {e : Expression}
    (ih : ∀ n, s.levels = n + 1 → ReadsExpressions n)
    (h : Reads (operandOver expression) s.advance e t) : SpansOperand s e t := by
  simp only [operandOver, reads_current_bind, current_advance] at h
  split at h
  · rename_i hk
    obtain ⟨rfl, rfl⟩ := reads_pure.mp h
    exact ⟨[⟨.ident, s.ahead.literal⟩], .register, by simp [hk],
      fun hb => absurd hb (not_begins_cons (by simp))⟩
  · rename_i hk
    simp only [bit, reads_current_bind, current_advance, reads_ite, reads_pure, not_reads_fail,
      and_false, or_false] at h
    rcases h with ⟨hl, rfl, rfl⟩ | ⟨-, hl, rfl, rfl⟩
    · exact ⟨_, .zero, by simp [hk, hl], fun hb => absurd hb (not_begins_cons (by simp))⟩
    · exact ⟨_, .one, by simp [hk, hl], fun hb => absurd hb (not_begins_cons (by simp))⟩
  · rename_i hk
    obtain ⟨hlt, u, hin, rfl⟩ := reads_nested.mp h
    obtain ⟨n, hn⟩ := lt_nestingLimit_iff.mp hlt
    rw [levels_advance] at hn
    rw [reads_advance_bind, reads_bind] at hin
    simp only [reads_expect_bind, reads_pure] at hin
    obtain ⟨e', v, hin, hr, rfl, rfl⟩ := hin
    obtain ⟨v, ⟨ws, hws, hpass⟩, -, rfl⟩ :=
      (reads_inner (s := s.advance) (by rw [levels_advance, hn]) (ih n hn)).mp hin
    refine ⟨⟨.leftParen, s.ahead.literal⟩ :: (ws ++ [⟨.rightParen, v.ahead.literal⟩]),
      .bracketed (.mk ⟨n, hn, hws⟩), ?_, fun hb => absurd hb (not_begins_cons (by simp))⟩
    rw [passes_word (by simp), passes_append, advance_deeper, shallower_deeper]
    exact ⟨hk, rfl, v, hpass, (passes_word (by simp)).mpr ⟨hr, rfl, rfl⟩⟩
  · rename_i hk
    obtain ⟨hlt, u, hin, rfl⟩ := reads_nested.mp h
    obtain ⟨n, hn⟩ := lt_nestingLimit_iff.mp hlt
    rw [levels_advance] at hn
    rw [reads_advance_bind, reads_bind] at hin
    simp only [reads_pure] at hin
    obtain ⟨e', v, hin, rfl, rfl⟩ := hin
    obtain ⟨v, ⟨ws, hws, hpass⟩, hahead, rfl⟩ :=
      (reads_inner (s := s.advance) (by rw [levels_advance, hn]) (ih n hn)).mp hin
    exact ⟨⟨.prefixOp, s.ahead.literal⟩ :: ws, .unary ⟨n, hn, hws⟩,
      (passes_word (by simp)).mpr ⟨hk, rfl, hpass⟩, fun _ => hahead⟩
  · rename_i hk
    simp only [reads_expectName_bind, reads_pure, current_advance] at h
    obtain ⟨hi, rfl, rfl⟩ := h
    exact ⟨[⟨.percent, s.ahead.literal⟩, ⟨.ident, s.advance.ahead.literal⟩], .group,
      by simp [hk, hi], fun hb => absurd hb (not_begins_cons (by simp))⟩
  · exact absurd h not_reads_fail

theorem reads_operand_of_spans {e : Expression}
    (ih : ∀ n, s.levels = n + 1 → ReadsExpressions n) (h : SpansOperand s e t) :
    Reads (operandOver expression) s.advance e t := by
  obtain ⟨ws, hX, hpass, hahead⟩ := h
  simp only [operandOver, reads_current_bind, current_advance]
  cases hX with
  | register =>
    simp only [ne_eq, reduceCtorEq, not_false_eq_true, passes_word, passes_nil] at hpass
    obtain ⟨hk, rfl, rfl⟩ := hpass
    simp [hk]
  | zero =>
    simp only [ne_eq, reduceCtorEq, not_false_eq_true, passes_word, passes_nil] at hpass
    obtain ⟨hk, hl, rfl⟩ := hpass
    simp [hk, bit, hl]
  | one =>
    simp only [ne_eq, reduceCtorEq, not_false_eq_true, passes_word, passes_nil] at hpass
    obtain ⟨hk, hl, rfl⟩ := hpass
    simp [hk, bit, hl]
  | group =>
    simp only [ne_eq, reduceCtorEq, not_false_eq_true, passes_word, passes_nil] at hpass
    obtain ⟨hk, -, hi, rfl, rfl⟩ := hpass
    simp [hk, hi]
  | bracketed inside =>
    cases inside with
    | mk inside =>
      obtain ⟨n, hn, hws⟩ := inside
      simp only [ne_eq, reduceCtorEq, not_false_eq_true, passes_word, passes_append,
        passes_nil] at hpass
      obtain ⟨hk, -, v, hpass, hr, -, rfl⟩ := hpass
      rw [hk]
      refine reads_nested.mpr ⟨lt_nestingLimit_iff.mpr ⟨n, by rw [levels_advance, hn]⟩, ?_⟩
      have hinner := (reads_inner (s := s.advance) (by rw [levels_advance, hn]) (ih n hn)).mpr
        ⟨v, ⟨_, hws, hpass⟩, by simp [hr], rfl⟩
      refine ⟨v.deeper.advance, ?_, by rw [advance_deeper, shallower_deeper]⟩
      rw [reads_advance_bind, reads_bind]
      exact ⟨e, v.deeper, hinner, by simpa using hr⟩
  | unary operand =>
    obtain ⟨n, hn, hws⟩ := operand
    rw [passes_word (by simp)] at hpass
    obtain ⟨hk, rfl, hpass⟩ := hpass
    rw [hk]
    refine reads_nested.mpr ⟨lt_nestingLimit_iff.mpr ⟨n, by rw [levels_advance, hn]⟩, ?_⟩
    have hinner := (reads_inner (s := s.advance) (by rw [levels_advance, hn]) (ih n hn)).mpr
      ⟨t, ⟨_, hws, hpass⟩, hahead ⟨_, _, rfl, rfl⟩, rfl⟩
    refine ⟨t.deeper, ?_, rfl⟩
    rw [reads_advance_bind, reads_bind]
    exact ⟨_, t.deeper, hinner, reads_pure.mpr ⟨rfl, rfl⟩⟩

/-- An operand is read exactly where there is one. -/
theorem reads_operand {e : Expression} (ih : ∀ n, s.levels = n + 1 → ReadsExpressions n) :
    Reads (operandOver expression) s.advance e t ↔ SpansOperand s e t :=
  ⟨spans_of_reads_operand ih, reads_operand_of_spans ih⟩

/-! ## Chains of operands -/

theorem endOfText_ne_infixOp : (Kind.endOfText == .infixOp) = false := rfl

/-- The loop that reads the infix operators behind an operand. -/
abbrev operationsOver (inner : Production Expression) : Production (List (String × Expression)) :=
  whileAhead (· == .infixOp) endOfText_ne_infixOp (operationOver inner)

/-- The loop, with expressions inside the operands. -/
abbrev operations : Production (List (String × Expression)) := operationsOver expression

theorem tailOver_eq (inner : Production Expression) (left : Expression) :
    tailOver inner left = operationsOver inner >>= fun ops => pure (assemble left ops) := rfl

theorem reads_operation {o : String} {e : Expression}
    (ih : ∀ n, s.levels = n + 1 → ReadsExpressions n) :
    Reads (operationOver expression) s.advance (o, e) t ↔
      o = s.ahead.literal ∧ SpansOperand s.advance e t := by
  rw [operationOver, reads_current_bind, reads_advance_bind, reads_bind, current_advance,
    ← reads_operand (s := s.advance) (by simpa using ih)]
  simp only [reads_pure, Prod.mk.injEq]
  constructor
  · rintro ⟨e', u, h, ⟨rfl, rfl⟩, rfl⟩
    exact ⟨rfl, h⟩
  · rintro ⟨rfl, h⟩
    exact ⟨e, t, h, ⟨rfl, rfl⟩, rfl⟩

/-- The operations behind an operand make an expression of it. -/
theorem spans_of_reads_operations {left : Expression} {ops : List (String × Expression)}
    (ih : ∀ n, s.levels = n + 1 → ReadsExpressions n) (hleft : SpansOperand s left t)
    (h : Reads operations t ops u) :
    Spans (IsExpression s.levels) s (chain left ops) u ∧ u.ahead.kind ≠ .infixOp := by
  induction ops generalizing s left t with
  | nil =>
    obtain ⟨hend, rfl⟩ := reads_whileAhead_nil.mp h
    obtain ⟨ws, hX, hpass, -⟩ := hleft
    refine ⟨⟨ws, ?_, hpass⟩, by simpa using hend⟩
    rw [isExpression_eq]
    exact .operand hX
  | cons op ops ihops =>
    obtain ⟨o, operand⟩ := op
    obtain ⟨hk, v, hop, hmore⟩ := reads_whileAhead_cons.mp h
    obtain ⟨ws, hX, hpass, hclosed⟩ := hleft
    have hk : t.ahead.kind = .infixOp := by simpa using hk
    have hlevels : t.levels = s.levels := hpass.levels
    rw [reads_operation (by rw [hlevels]; exact ih)] at hop
    obtain ⟨rfl, hoperand⟩ := hop
    have hrest := ihops (by rw [levels_advance, hlevels]; exact ih) hoperand hmore
    obtain ⟨⟨vs, hvs, hpass'⟩, hahead⟩ := hrest
    refine ⟨⟨ws ++ ⟨.infixOp, t.ahead.literal⟩ :: vs, ?_, ?_⟩, hahead⟩
    · rw [levels_advance, hlevels, isExpression_eq] at hvs
      rw [isExpression_eq]
      exact .binary hX (fun hb => hclosed hb hk) hvs
    · exact passes_append.mpr ⟨t, hpass, (passes_word (by simp)).mpr ⟨hk, rfl, hpass'⟩⟩

/-- An expression of the grammar is an operand with operations behind it. -/
theorem reads_operations_of_expressionOver {ws : List Word} {e : Expression}
    (ih : ∀ n, s.levels = n + 1 → ReadsExpressions n)
    (hX : ExpressionOver (Deeper IsExpression s.levels) ws e) (hpass : Passes s ws u)
    (hend : u.ahead.kind ≠ .infixOp) :
    ∃ left t ops, SpansOperand s left t ∧ Reads operations t ops u ∧ e = chain left ops := by
  generalize hn : s.levels = n at hX
  induction hX generalizing s with
  | operand operand =>
    refine ⟨_, u, [], ⟨_, by rwa [hn], hpass, fun _ => hend⟩, ?_, rfl⟩
    exact reads_whileAhead_nil.mpr ⟨by simpa using hend, rfl⟩
  | binary operand closed rest ihrest =>
    obtain ⟨t, hleft, hmore⟩ := passes_append.mp hpass
    obtain ⟨hk, rfl, hright⟩ := (passes_word (by simp)).mp hmore
    have hlevels : t.advance.levels = s.levels := by rw [levels_advance, hleft.levels]
    obtain ⟨operand', v, ops, hoperand, hops, rfl⟩ :=
      ihrest (by rw [hlevels]; exact ih) hright (by rw [hlevels, hn])
    refine ⟨_, t, (t.ahead.literal, operand') :: ops,
      ⟨_, by rwa [hn], hleft, fun hb => absurd hb closed⟩, ?_, rfl⟩
    refine reads_whileAhead_cons.mpr ⟨by simpa using hk, v, ?_, hops⟩
    rw [reads_operation (by rw [← levels_advance, hlevels]; exact ih)]
    exact ⟨rfl, hoperand⟩

/-! ## Expressions -/

theorem reads_expressionTail {left e : Expression} :
    Reads (expressionTail left) s e t ↔ ∃ ops, Reads operations s ops t ∧ e = chain left ops := by
  rw [expressionTail, tailOver_eq, reads_bind]
  simp only [assemble_eq_chain]
  constructor
  · rintro ⟨ops, u, hops, h⟩
    obtain ⟨rfl, rfl⟩ := reads_pure.mp h
    exact ⟨ops, hops, rfl⟩
  · rintro ⟨ops, hops, rfl⟩
    exact ⟨ops, t, hops, reads_pure.mpr ⟨rfl, rfl⟩⟩

theorem readsExpressions (n : Nat) : ReadsExpressions n := by
  induction n using Nat.strongRecOn with
  | ind n ihn =>
    intro s e t hn
    have ih : ∀ m, s.levels = m + 1 → ReadsExpressions m := fun m hm => ihn m (by omega)
    subst hn
    rw [expression_eq, expressionOver, reads_bind]
    constructor
    · rintro ⟨left, u, hleft, htail⟩
      obtain ⟨ops, hops, rfl⟩ := reads_expressionTail.mp htail
      exact spans_of_reads_operations ih ((reads_operand ih).mp hleft) hops
    · rintro ⟨⟨ws, hX, hpass⟩, hend⟩
      rw [isExpression_eq] at hX
      obtain ⟨left, u, ops, hleft, hops, rfl⟩ :=
        reads_operations_of_expressionOver ih hX hpass hend
      exact ⟨left, u, (reads_operand ih).mpr hleft, reads_expressionTail.mpr ⟨ops, hops, rfl⟩⟩

/-- An expression is read exactly where there is one and no infix operator follows. -/
theorem reads_expression {e : Expression} :
    Reads expression s.advance e t ↔
      Spans (IsExpression s.levels) s e t ∧ t.ahead.kind ≠ .infixOp :=
  readsExpressions s.levels rfl

/-- Behind an operand nothing more is read, or an infix operator and the expression after it. -/
theorem reads_expressionTail_iff {left e : Expression} :
    Reads (expressionTail left) s e t ↔
      (s.ahead.kind ≠ .infixOp ∧ e = left ∧ t = s) ∨
      (s.ahead.kind = .infixOp ∧ ∃ right, Spans (IsExpression s.levels) s.advance right t ∧
        t.ahead.kind ≠ .infixOp ∧ e = .binary left s.ahead.literal right) := by
  have ih : ∀ n, s.advance.levels = n + 1 → ReadsExpressions n := fun n _ => readsExpressions n
  rw [reads_expressionTail]
  constructor
  · rintro ⟨ops, hops, rfl⟩
    cases ops with
    | nil =>
      obtain ⟨hend, rfl⟩ := reads_whileAhead_nil.mp hops
      exact .inl ⟨by simpa using hend, rfl, rfl⟩
    | cons op ops =>
      obtain ⟨o, operand⟩ := op
      obtain ⟨hk, u, hop, hmore⟩ := reads_whileAhead_cons.mp hops
      rw [reads_operation fun n _ => readsExpressions n] at hop
      obtain ⟨rfl, hoperand⟩ := hop
      obtain ⟨hspan, hend⟩ := spans_of_reads_operations ih hoperand hmore
      rw [levels_advance] at hspan
      exact .inr ⟨by simpa using hk, _, hspan, hend, rfl⟩
  · rintro (⟨hk, rfl, rfl⟩ | ⟨hk, right, ⟨ws, hX, hpass⟩, hend, rfl⟩)
    · exact ⟨[], reads_whileAhead_nil.mpr ⟨by simpa using hk, rfl⟩, rfl⟩
    · rw [isExpression_eq, ← levels_advance] at hX
      obtain ⟨operand, u, ops, hoperand, hops, rfl⟩ :=
        reads_operations_of_expressionOver ih hX hpass hend
      refine ⟨(s.ahead.literal, operand) :: ops, ?_, rfl⟩
      refine reads_whileAhead_cons.mpr ⟨by simpa using hk, u, ?_, hops⟩
      exact (reads_operation fun n _ => readsExpressions n).mpr ⟨rfl, hoperand⟩

theorem startsOperand_of_spans {n : Nat} {e : Expression} (h : Spans (IsExpression n) s e t) :
    startsOperand s.ahead.kind = true := by
  obtain ⟨ws, hX, hpass⟩ := h
  obtain ⟨w, vs, rfl, hw⟩ := exists_first_of_isExpression hX
  obtain ⟨-, rfl, -⟩ := passes_cons.mp hpass
  exact hw

end Grammar
end CircuitText
