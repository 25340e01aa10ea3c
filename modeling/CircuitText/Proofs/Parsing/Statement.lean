import CircuitText.Proofs.Parsing.Delay
import CircuitText.Proofs.Parsing.Lists

/-!
# Reading statements is deriving them

The first word of a statement, and for a name and for a group the bracket behind it, decide which
production reads it.  The grammar has no such rule: that the choice is right follows from what may
stand behind an operand, which is an infix operator or the end of the expression, and never an
opening bracket.

A pipe that begins with a bracket is read as a list first.  It is the operand of an infix operator
just when the list has one expression and no comma and an infix operator follows, so the three rules
for the inputs of a pipe exclude each other.

* `reads_pipeOutputs`, `reads_callOutputs`, `reads_counter` --- the parts of statements;
* `spans_group`, `spans_call`, `spans_pipe`, `spans_clock` --- the rules between two states;
* `reads_statement`, `reads_block` --- statements and blocks.
-/

namespace CircuitText
namespace Grammar

variable {s t u : State} {n : Nat} {body : Phrase (List Statement)} {st : Statement}

/-! ## The parts of statements -/

theorem reads_pipeOutputs {os : List Parameter} :
    Reads pipeOutputs s os t ↔ Spans IsOutputs s os t := by
  simp only [pipeOutputs, reads_aheadIs_bind, reads_ite, beq_iff_eq, reads_advance_bind]
  constructor
  · rintro (⟨hopen, h⟩ | ⟨-, h⟩)
    · rw [reads_list_advance (readsItem_parameter _) hopen] at h
      exact h.imp fun _ => .listed
    · obtain ⟨p, u, hp, h⟩ := reads_bind.mp h
      obtain ⟨rfl, rfl⟩ := reads_pure.mp h
      exact (reads_parameter.mp hp).imp fun _ => .single
  · rintro ⟨ws, hX, hpass⟩
    cases hX with
    | single parameter =>
      have hspan : Spans IsParameter s _ t := ⟨ws, parameter, hpass⟩
      refine .inr ⟨?_, reads_bind.mpr ⟨_, t, reads_parameter.mpr hspan, reads_pure.mpr ⟨rfl, rfl⟩⟩⟩
      cases parameter with
      | register => simp [((passes_word (by simp)).mp hpass).1]
      | group => simp [((passes_word (by simp)).mp hpass).1]
    | listed list =>
      have hspan : Spans (Bracketed (Items IsParameter)) s os t := ⟨ws, list, hpass⟩
      have hopen := (spans_bracketed.mp hspan).1
      exact .inl ⟨hopen, (reads_list_advance (readsItem_parameter _) hopen).mpr hspan⟩

/-- Outputs of a call that the semicolon follows. -/
theorem reads_callOutputs {os : List Parameter} (hend : t.ahead.kind = .semicolon) :
    Reads callOutputs s os t ↔ Spans IsCallOutputs s os t := by
  simp only [callOutputs, reads_aheadIs_bind, reads_ite, beq_iff_eq, reads_advance_bind,
    reads_expect_bind, reads_pure]
  constructor
  · rintro (⟨ha, hopen, h⟩ | ⟨-, rfl, rfl⟩)
    · rw [reads_list_advance (readsItem_parameter _) hopen] at h
      obtain ⟨ws, list, hpass⟩ := h
      exact ⟨_, .listed list, (passes_word (by simp)).mpr ⟨ha, rfl, hpass⟩⟩
    · exact ⟨[], .none, rfl⟩
  · rintro ⟨ws, hX, hpass⟩
    cases hX with
    | none =>
      obtain rfl := passes_nil.mp hpass
      exact .inr ⟨by simp [hend], rfl, rfl⟩
    | listed list =>
      obtain ⟨ha, -, hpass⟩ := (passes_word (by simp)).mp hpass
      have hspan : Spans (Bracketed (Items IsParameter)) s.advance os t := ⟨_, list, hpass⟩
      have hopen := (spans_bracketed.mp hspan).1
      exact .inl ⟨ha, hopen, (reads_list_advance (readsItem_parameter _) hopen).mpr hspan⟩

/-- A counter that the body of a clock follows. -/
theorem reads_counter {c : Option String} (hend : t.ahead.kind = .leftBrace) :
    Reads counter s c t ↔ Spans IsCounter s c t := by
  simp only [counter, reads_aheadIs_bind, reads_ite, beq_iff_eq, reads_advance_bind,
    reads_expectName_bind, reads_pure, current_advance]
  constructor
  · rintro (⟨hk, hi, rfl, rfl⟩ | ⟨-, rfl, rfl⟩)
    · exact ⟨[⟨.percent, s.ahead.literal⟩, _], .group, by simp [hk, hi]⟩
    · exact ⟨[], .none, rfl⟩
  · rintro ⟨ws, hX, hpass⟩
    cases hX with
    | none =>
      obtain rfl := passes_nil.mp hpass
      exact .inr ⟨by simp [hend], rfl, rfl⟩
    | group =>
      simp only [ne_eq, reduceCtorEq, not_false_eq_true, passes_word, passes_nil] at hpass
      obtain ⟨hk, -, hi, rfl, rfl⟩ := hpass
      exact .inl ⟨hk, hi, rfl, rfl⟩

/-! ## The rules between two states -/

/-- The arrow, the outputs and the semicolon of a pipe. -/
def SpansOutlet (s : State) (os : List Parameter) (t : State) : Prop :=
  s.ahead.kind = .arrow ∧ ∃ u, Spans IsOutputs s.advance os u ∧ u.ahead.kind = .semicolon ∧
    t = u.advance

theorem reads_pipeFrom {es : List Expression} :
    Reads (pipeFrom es) s st t ↔ ∃ os, st = .pipe es os ∧ SpansOutlet s os t := by
  rw [pipeFrom, reads_expect_bind, reads_bind]
  simp only [reads_expect_bind, reads_pure, reads_pipeOutputs]
  constructor
  · rintro ⟨ha, os, u, hspan, hend, rfl, rfl⟩
    exact ⟨os, rfl, ha, u, hspan, hend, rfl⟩
  · rintro ⟨os, rfl, ha, u, hspan, hend, rfl⟩
    exact ⟨ha, os, u, hspan, hend, rfl, rfl⟩

theorem spans_pipe {es : List Expression} {os : List Parameter} :
    Spans (StatementOver n body) s (.pipe es os) t ↔
      ∃ u, Spans (IsInputs n) s es u ∧ SpansOutlet u os t := by
  constructor
  · rintro ⟨ws, hX, hpass⟩
    cases hX with
    | pipe inputs outputs =>
      simp only [ne_eq, reduceCtorEq, not_false_eq_true, passes_word, passes_append,
        passes_nil] at hpass
      obtain ⟨u, hin, ha, -, v, hout, hend, -, rfl⟩ := hpass
      exact ⟨u, ⟨_, inputs, hin⟩, ha, v, ⟨_, outputs, hout⟩, hend, rfl⟩
  · rintro ⟨u, ⟨ws, inputs, hin⟩, ha, v, ⟨vs, outputs, hout⟩, hend, rfl⟩
    refine ⟨_, .pipe (a := u.ahead.literal) (s := v.ahead.literal) inputs outputs, ?_⟩
    simp only [ne_eq, reduceCtorEq, not_false_eq_true, passes_word, passes_append, passes_nil]
    exact ⟨u, hin, ha, rfl, v, hout, hend, rfl, rfl⟩

theorem spans_group {x : String} {ps : List Parameter} :
    Spans (StatementOver n body) s (.group x ps) t ↔
      s.ahead.kind = .percent ∧ s.advance.ahead.kind = .ident ∧ s.advance.ahead.literal = x ∧
        ∃ u, Spans (Bracketed (Items IsParameter)) s.advance.advance ps u ∧
          u.ahead.kind = .semicolon ∧ t = u.advance := by
  constructor
  · rintro ⟨ws, hX, hpass⟩
    cases hX with
    | group members =>
      simp only [ne_eq, reduceCtorEq, not_false_eq_true, passes_word, passes_append,
        passes_nil] at hpass
      obtain ⟨hk, -, hi, hx, u, hmembers, hend, -, rfl⟩ := hpass
      exact ⟨hk, hi, hx, u, ⟨_, members, hmembers⟩, hend, rfl⟩
  · rintro ⟨hk, hi, hx, u, ⟨ws, members, hmembers⟩, hend, rfl⟩
    refine ⟨_, .group (p := s.ahead.literal) (s := u.ahead.literal) members, ?_⟩
    simp only [ne_eq, reduceCtorEq, not_false_eq_true, passes_word, passes_append, passes_nil,
      true_and]
    exact ⟨hk, hi, hx, u, hmembers, hend, rfl, rfl⟩

theorem spans_call {x : String} {es : List Expression} {os : List Parameter} :
    Spans (StatementOver n body) s (.call x es os) t ↔
      s.ahead.kind = .ident ∧ s.ahead.literal = x ∧
        ∃ u v, Spans (Bracketed (Items (IsExpression n))) s.advance es u ∧
          Spans IsCallOutputs u os v ∧ v.ahead.kind = .semicolon ∧ t = v.advance := by
  constructor
  · rintro ⟨ws, hX, hpass⟩
    cases hX with
    | call inputs outputs =>
      simp only [ne_eq, reduceCtorEq, not_false_eq_true, passes_word, passes_append,
        passes_nil] at hpass
      obtain ⟨hk, hx, u, hin, v, hout, hend, -, rfl⟩ := hpass
      exact ⟨hk, hx, u, v, ⟨_, inputs, hin⟩, ⟨_, outputs, hout⟩, hend, rfl⟩
  · rintro ⟨hk, hx, u, v, ⟨ws, inputs, hin⟩, ⟨vs, outputs, hout⟩, hend, rfl⟩
    refine ⟨_, .call (s := v.ahead.literal) inputs outputs, ?_⟩
    simp only [ne_eq, reduceCtorEq, not_false_eq_true, passes_word, passes_append, passes_nil]
    exact ⟨hk, hx, u, hin, v, hout, hend, rfl, rfl⟩

theorem spans_clock {d : Delay} {c : Option String} {b : List Statement} :
    Spans (StatementOver n body) s (.clock d c b) t ↔
      s.ahead.kind = .clock ∧ s.advance.ahead.kind = .number ∧
        s.advance.advance.ahead.kind = .ident ∧
        Delay.IsWritten s.advance.ahead.literal s.advance.advance.ahead.literal d ∧
        ∃ u v, Spans IsCounter s.advance.advance.advance c u ∧ u.ahead.kind = .leftBrace ∧
          Spans body u.advance b v ∧ v.ahead.kind = .rightBrace ∧ t = v.advance := by
  constructor
  · rintro ⟨ws, hX, hpass⟩
    cases hX with
    | clock delay counter block =>
      simp only [ne_eq, reduceCtorEq, not_false_eq_true, passes_word, passes_append,
        passes_nil] at hpass
      obtain ⟨hk, -, hn, rfl, hi, rfl, u, hcounter, hopen, -, v, hblock, hclose, -, rfl⟩ := hpass
      exact ⟨hk, hn, hi, delay, u, v, ⟨_, counter, hcounter⟩, hopen, ⟨_, block, hblock⟩, hclose,
        rfl⟩
  · rintro ⟨hk, hn, hi, delay, u, v, ⟨ws, counter, hcounter⟩, hopen, ⟨vs, block, hblock⟩, hclose,
      rfl⟩
    refine ⟨_, .clock (c := s.ahead.literal) (l := u.ahead.literal) (r := v.ahead.literal)
      delay counter block, ?_⟩
    simp only [ne_eq, reduceCtorEq, not_false_eq_true, passes_word, passes_append, passes_nil,
      true_and]
    exact ⟨hk, hn, hi, u, hcounter, hopen, rfl, v, hblock, hclose, rfl, rfl⟩

/-- Inputs of a pipe that do not begin with a bracket. -/
theorem spans_inputs_bare {es : List Expression} (hopen : s.ahead.kind ≠ .leftParen) :
    Spans (IsInputs n) s es t ↔ ∃ e, es = [e] ∧ Spans (IsExpression n) s e t := by
  constructor
  · rintro ⟨ws, hX, hpass⟩
    cases hX with
    | single expression => exact ⟨_, rfl, ws, expression, hpass⟩
    | listed list => exact absurd (spans_bracketed.mp ⟨ws, list, hpass⟩).1 hopen
    | binary operand =>
      obtain ⟨u, hpass, -⟩ := passes_append.mp hpass
      exact absurd (spans_bracketed.mp ⟨_, operand, hpass⟩).1 hopen
  · rintro ⟨e, rfl, ws, expression, hpass⟩
    refine ⟨ws, .single expression ?_, hpass⟩
    rintro ⟨w, vs, rfl, hw⟩
    obtain ⟨-, rfl, -⟩ := passes_cons.mp hpass
    exact hopen hw

/-- Inputs of a pipe that begin with a bracket. -/
theorem spans_inputs_bracket {es : List Expression} (hopen : s.ahead.kind = .leftParen) :
    Spans (IsInputs n) s es t ↔ Spans (Bracketed (Items (IsExpression n))) s es t ∨
      ∃ left right u, es = [.binary left u.ahead.literal right] ∧
        Spans (Bracketed (IsExpression n)) s left u ∧ u.ahead.kind = .infixOp ∧
        Spans (IsExpression n) u.advance right t := by
  constructor
  · rintro ⟨ws, hX, hpass⟩
    cases hX with
    | single expression bare =>
      obtain ⟨w, vs, rfl, -⟩ := exists_first_of_isExpression expression
      obtain ⟨-, rfl, -⟩ := passes_cons.mp hpass
      exact absurd ⟨_, vs, rfl, hopen⟩ bare
    | listed list => exact .inl ⟨ws, list, hpass⟩
    | binary operand rest =>
      obtain ⟨u, hleft, hpass⟩ := passes_append.mp hpass
      obtain ⟨hk, rfl, hright⟩ := (passes_word (by simp)).mp hpass
      exact .inr ⟨_, _, u, rfl, ⟨_, operand, hleft⟩, hk, _, rest, hright⟩
  · rintro (⟨ws, list, hpass⟩ | ⟨left, right, u, rfl, ⟨ws, operand, hleft⟩, hk, vs, rest, hright⟩)
    · exact ⟨ws, .listed list, hpass⟩
    · refine ⟨_, .binary operand rest, passes_append.mpr ⟨u, hleft, ?_⟩⟩
      exact (passes_word (by simp)).mpr ⟨hk, rfl, hright⟩

/-! ## Pipes -/

theorem reads_pipe (body : Phrase (List Statement)) (hopen : s.ahead.kind ≠ .leftParen) :
    Reads pipe s.advance st t ↔
      ∃ es os, st = .pipe es os ∧ Spans (StatementOver s.levels body) s (.pipe es os) t := by
  simp only [pipe, reads_bind, reads_pipeFrom, reads_expression, spans_pipe]
  constructor
  · rintro ⟨e, u, ⟨he, -⟩, os, rfl, hos⟩
    exact ⟨[e], os, rfl, u, (spans_inputs_bare hopen).mpr ⟨e, rfl, he⟩, hos⟩
  · rintro ⟨es, os, rfl, u, hes, hos⟩
    obtain ⟨e, rfl, he⟩ := (spans_inputs_bare hopen).mp hes
    exact ⟨e, u, ⟨he, by simp [hos.1]⟩, os, rfl, hos⟩

/-- An expression that begins with the name of a register. -/
theorem reads_expression_register {e : Expression} (hk : s.ahead.kind = .ident) :
    Reads expression s.advance e t ↔
      Reads (expressionTail (.register s.ahead.literal)) s.advance e t := by
  rw [expression_eq, expressionOver, reads_bind]
  simp only [operandOver, reads_current_bind, current_advance, hk, reads_pure]
  constructor
  · rintro ⟨left, u, ⟨rfl, rfl⟩, h⟩
    exact h
  · exact fun h => ⟨_, _, ⟨rfl, rfl⟩, h⟩

/-- An expression that begins with a group. -/
theorem reads_expression_group {e : Expression} (hk : s.ahead.kind = .percent) :
    Reads expression s.advance e t ↔ s.advance.ahead.kind = .ident ∧
      Reads (expressionTail (.group s.advance.ahead.literal)) s.advance.advance e t := by
  rw [expression_eq, expressionOver, reads_bind]
  simp only [operandOver, reads_current_bind, current_advance, hk, reads_expectName_bind,
    reads_pure]
  constructor
  · rintro ⟨left, u, ⟨hi, rfl, rfl⟩, h⟩
    exact ⟨hi, h⟩
  · rintro ⟨hi, h⟩
    exact ⟨_, _, ⟨hi, rfl, rfl⟩, h⟩

/-- What stands behind an operand of a pipe is no opening bracket. -/
theorem ahead_ne_leftParen_of_reads_expressionTail {left e : Expression}
    (h : Reads (expressionTail left) s e t) (harrow : t.ahead.kind = .arrow) :
    s.ahead.kind ≠ .leftParen := by
  rcases reads_expressionTail_iff.mp h with ⟨-, -, rfl⟩ | ⟨hk, -⟩
  · simp [harrow]
  · simp [hk]

/-- A list of one expression without a comma is an expression in brackets. -/
theorem reads_listWithComma_single {e : Expression} (hopen : s.ahead.kind = .leftParen) :
    Reads (listWithComma expression) s.advance ([e], false) t ↔
      Spans (Bracketed (IsExpression s.levels)) s e t := by
  rw [reads_listWithComma_cons (by rw [levels_advance]; exact readsItem_expression _),
    spans_bracketed, and_iff_right hopen]
  constructor
  · rintro ⟨u, v, he, hcomma, hmore, hclose, rfl⟩
    rcases spans_moreItems_nil.mp hmore with rfl | ⟨hk, -⟩
    · exact ⟨v, he, hclose, rfl⟩
    · simp [hk] at hcomma
  · rintro ⟨u, he, hclose, rfl⟩
    exact ⟨u, u, he, by simp [hclose], spans_moreItems_nil.mpr (.inl rfl), hclose, rfl⟩

theorem reads_pipeFromBracket (body : Phrase (List Statement))
    (hopen : s.ahead.kind = .leftParen) :
    Reads pipeFromBracket s.advance st t ↔
      ∃ es os, st = .pipe es os ∧ Spans (StatementOver s.levels body) s (.pipe es os) t := by
  have hlist : ∀ {es u}, (∃ comma, Reads (listWithComma expression) s.advance (es, comma) u) ↔
      Spans (Bracketed (Items (IsExpression s.levels))) s es u := fun {es u} => by
    rw [← reads_list_advance (readsItem_expression _) hopen, reads_list_iff]
  simp only [pipeFromBracket, reads_bind (p := listWithComma expression), Prod.exists, spans_pipe,
    spans_inputs_bracket hopen]
  constructor
  · rintro ⟨es, comma, u, hes, h⟩
    split at h
    · rename_i first heq
      obtain ⟨rfl, rfl⟩ := Prod.mk.inj heq
      simp only [reads_aheadIs_bind, reads_ite, beq_iff_eq] at h
      rcases h with ⟨hk, h⟩ | ⟨-, h⟩
      · obtain ⟨e, v, htail, h⟩ := reads_bind.mp h
        obtain ⟨os, rfl, hos⟩ := reads_pipeFrom.mp h
        rcases reads_expressionTail_iff.mp htail with ⟨hne, -⟩ | ⟨-, right, hright, -, rfl⟩
        · exact absurd hk hne
        · have hleft := (reads_listWithComma_single hopen).mp hes
          rw [hleft.levels] at hright
          exact ⟨_, os, rfl, v, .inr ⟨first, right, u, rfl, hleft, hk, hright⟩, hos⟩
      · obtain ⟨os, rfl, hos⟩ := reads_pipeFrom.mp h
        exact ⟨_, os, rfl, u, .inl (hlist.mp ⟨_, hes⟩), hos⟩
    · rename_i es' comma' hne heq
      obtain ⟨rfl, rfl⟩ := Prod.mk.inj heq
      obtain ⟨os, rfl, hos⟩ := reads_pipeFrom.mp h
      exact ⟨_, os, rfl, u, .inl (hlist.mp ⟨_, hes⟩), hos⟩
  · rintro ⟨es, os, rfl, v, hes | ⟨left, right, u, rfl, hleft, hk, hright⟩, hos⟩
    · obtain ⟨comma, hread⟩ := hlist.mpr hes
      refine ⟨es, comma, v, hread, ?_⟩
      -- the arrow is ahead, so that it makes no difference whether this is a single expression
      split
      · rename_i first heq
        obtain ⟨rfl, rfl⟩ := Prod.mk.inj heq
        simp only [reads_aheadIs_bind, reads_ite, beq_iff_eq]
        exact .inr ⟨by simp [hos.1], reads_pipeFrom.mpr ⟨os, rfl, hos⟩⟩
      · rename_i es' comma' hne heq
        obtain ⟨rfl, rfl⟩ := Prod.mk.inj heq
        exact reads_pipeFrom.mpr ⟨os, rfl, hos⟩
    · refine ⟨[left], false, u, (reads_listWithComma_single hopen).mpr hleft, ?_⟩
      have htail : Reads (expressionTail left) u (.binary left u.ahead.literal right) v :=
        reads_expressionTail_iff.mpr
          (.inr ⟨hk, right, hleft.levels ▸ hright, by simp [hos.1], rfl⟩)
      simp only [reads_aheadIs_bind, reads_ite, beq_iff_eq]
      exact .inl ⟨hk, reads_bind.mpr ⟨_, v, htail, reads_pipeFrom.mpr ⟨os, rfl, hos⟩⟩⟩

/-! ## Statements -/

theorem reads_groupOrPipe (hk : s.ahead.kind = .percent) :
    Reads groupOrPipe s.advance st t ↔ Spans (StatementOver s.levels body) s st t := by
  have hopen : s.ahead.kind ≠ .leftParen := by simp [hk]
  simp only [groupOrPipe, reads_expectName_bind, reads_aheadIs_bind, reads_ite, beq_iff_eq,
    reads_advance_bind, current_advance]
  constructor
  · rintro ⟨hi, ⟨hleft, h⟩ | ⟨-, h⟩⟩
    · obtain ⟨ps, u, hps, h⟩ := reads_bind.mp h
      simp only [reads_expect_bind, reads_pure] at h
      obtain ⟨hend, rfl, rfl⟩ := h
      rw [reads_list_advance (readsItem_parameter _) hleft] at hps
      exact spans_group.mpr ⟨hk, hi, rfl, u, hps, hend, rfl⟩
    · obtain ⟨e, u, htail, h⟩ := reads_bind.mp h
      have hpipe : Reads pipe s.advance st t :=
        reads_bind.mpr ⟨e, u, (reads_expression_group hk).mpr ⟨hi, htail⟩, h⟩
      obtain ⟨es, os, rfl, hspan⟩ := (reads_pipe body hopen).mp hpipe
      exact hspan
  · intro h
    cases st with
    | group x ps =>
      obtain ⟨-, hi, rfl, u, hps, hend, rfl⟩ := spans_group.mp h
      have hleft := (spans_bracketed.mp hps).1
      refine ⟨hi, .inl ⟨hleft, reads_bind.mpr ⟨ps, u, ?_, by simp [hend]⟩⟩⟩
      exact (reads_list_advance (readsItem_parameter _) hleft).mpr hps
    | call x es os => simp [(spans_call.mp h).1] at hk
    | pipe es os =>
      obtain ⟨e, u, he, hpipe⟩ := reads_bind.mp ((reads_pipe body hopen).mpr ⟨es, os, rfl, h⟩)
      obtain ⟨hi, htail⟩ := (reads_expression_group hk).mp he
      obtain ⟨_, -, harrow, -⟩ := reads_pipeFrom.mp hpipe
      exact ⟨hi, .inr ⟨ahead_ne_leftParen_of_reads_expressionTail htail harrow,
        reads_bind.mpr ⟨e, u, htail, hpipe⟩⟩⟩
    | clock d c b => simp [(spans_clock.mp h).1] at hk

theorem reads_call (body : Phrase (List Statement)) (hk : s.ahead.kind = .ident)
    (hopen : s.advance.ahead.kind = .leftParen) :
    Reads call s.advance st t ↔
      ∃ x es os, st = .call x es os ∧ Spans (StatementOver s.levels body) s (.call x es os) t := by
  have hlist : ∀ {es u}, Reads (list expression) s.advance.advance es u ↔
      Spans (Bracketed (Items (IsExpression s.levels))) s.advance es u := fun {es u} =>
    reads_list_advance (by rw [levels_advance]; exact readsItem_expression _) hopen
  simp only [call, reads_current_bind, reads_advance_bind, current_advance, spans_call]
  constructor
  · intro h
    obtain ⟨es, u, hes, h⟩ := reads_bind.mp h
    obtain ⟨os, v, hos, h⟩ := reads_bind.mp h
    simp only [reads_expect_bind, reads_pure] at h
    obtain ⟨hend, rfl, rfl⟩ := h
    exact ⟨_, es, os, rfl, hk, rfl, u, v, hlist.mp hes, (reads_callOutputs hend).mp hos, hend, rfl⟩
  · rintro ⟨x, es, os, rfl, -, rfl, u, v, hes, hos, hend, rfl⟩
    refine reads_bind.mpr ⟨es, u, hlist.mpr hes, ?_⟩
    exact reads_bind.mpr ⟨os, v, (reads_callOutputs hend).mpr hos, by simp [hend]⟩

/-- With `n` levels left, a block is read exactly where there is one that a closing brace
follows. -/
def ReadsBlocks (n : Nat) : Prop := ∀ {s b t}, s.levels = n →
  (Reads block s b t ↔
    ∃ u, Spans (IsBlock n) s b u ∧ u.ahead.kind = .rightBrace ∧ t = u.advance)

/-- The body of a clock, one level deeper. -/
theorem reads_body {b : List Statement} (ih : ∀ n, s.levels = n + 1 → ReadsBlocks n) :
    Reads (nested block) s b t ↔ ∃ u, Spans (Deeper IsBlock s.levels) s b u ∧
      u.ahead.kind = .rightBrace ∧ t = u.advance := by
  rw [reads_nested, lt_nestingLimit_iff]
  constructor
  · rintro ⟨⟨n, hn⟩, v, hblock, rfl⟩
    obtain ⟨u, hspan, hclose, rfl⟩ := (ih n hn (levels_deeper hn)).mp hblock
    obtain ⟨w, ⟨ws, hb, hpass⟩, rfl⟩ := spans_deeper.mp hspan
    exact ⟨w, ⟨ws, ⟨n, hn, hb⟩, hpass⟩, hclose, by rw [advance_deeper, shallower_deeper]⟩
  · rintro ⟨u, ⟨ws, ⟨n, hn, hblock⟩, hpass⟩, hclose, rfl⟩
    refine ⟨⟨n, hn⟩, u.deeper.advance, ?_, by rw [advance_deeper, shallower_deeper]⟩
    exact (ih n hn (levels_deeper hn)).mpr
      ⟨u.deeper, spans_deeper.mpr ⟨u, ⟨ws, hblock, hpass⟩, rfl⟩, hclose, rfl⟩

theorem reads_clockOver (ih : ∀ n, s.levels = n + 1 → ReadsBlocks n)
    (hk : s.ahead.kind = .clock) :
    Reads (clockOver block) s.advance st t ↔
      ∃ d c b, st = .clock d c b ∧ Spans (IsStatement s.levels) s (.clock d c b) t := by
  simp only [clockOver, reads_expect_bind, spans_clock, reads_bind (p := delay), reads_delay,
    current_advance]
  constructor
  · rintro ⟨hn, d, _, ⟨hi, hd, rfl⟩, h⟩
    obtain ⟨c, u, hc, h⟩ := reads_bind.mp h
    rw [reads_expect_bind] at h
    obtain ⟨hopen, h⟩ := h
    obtain ⟨b, v, hb, h⟩ := reads_bind.mp h
    obtain ⟨rfl, rfl⟩ := reads_pure.mp h
    have hc := (reads_counter hopen).mp hc
    have hlevels : u.advance.levels = s.levels := by simp [hc.levels]
    obtain ⟨w, hbody, hclose, rfl⟩ := (reads_body (by rw [hlevels]; exact ih)).mp hb
    rw [hlevels] at hbody
    exact ⟨d, c, b, rfl, hk, hn, hi, hd, u, w, hc, hopen, hbody, hclose, rfl⟩
  · rintro ⟨d, c, b, rfl, -, hn, hi, hd, u, w, hc, hopen, hb, hclose, rfl⟩
    have hlevels : u.advance.levels = s.levels := by simp [hc.levels]
    refine ⟨hn, d, _, ⟨hi, hd, rfl⟩, reads_bind.mpr ⟨c, u, (reads_counter hopen).mpr hc, ?_⟩⟩
    rw [reads_expect_bind]
    refine ⟨hopen, reads_bind.mpr ⟨b, w.advance, ?_, reads_pure.mpr ⟨rfl, rfl⟩⟩⟩
    exact (reads_body (by rw [hlevels]; exact ih)).mpr ⟨w, hlevels.symm ▸ hb, hclose, rfl⟩

/-- The inputs of a pipe begin as an expression does. -/
theorem startsOperand_of_spans_inputs {es : List Expression} (h : Spans (IsInputs n) s es t) :
    startsOperand s.ahead.kind = true := by
  by_cases hopen : s.ahead.kind = .leftParen
  · rw [hopen]
    rfl
  · obtain ⟨e, -, he⟩ := (spans_inputs_bare hopen).mp h
    exact startsOperand_of_spans he

/-- Whatever a statement begins with, what is read is a statement. -/
theorem spans_of_reads_statement (ih : ∀ n, s.levels = n + 1 → ReadsBlocks n)
    (h : Reads (statementOver block) s.advance st t) : Spans (IsStatement s.levels) s st t := by
  simp only [statementOver, reads_current_bind, current_advance] at h
  split at h
  · rename_i hk
    exact (reads_groupOrPipe hk).mp h
  · rename_i hk
    obtain ⟨d, c, b, rfl, hspan⟩ := (reads_clockOver ih hk).mp h
    exact hspan
  · rename_i hk
    simp only [reads_aheadIs_bind, reads_ite, beq_iff_eq] at h
    rcases h with ⟨hopen, h⟩ | ⟨-, h⟩
    · obtain ⟨x, es, os, rfl, hspan⟩ := (reads_call (Deeper IsBlock s.levels) hk hopen).mp h
      exact hspan
    · obtain ⟨es, os, rfl, hspan⟩ := (reads_pipe (Deeper IsBlock s.levels) (by simp [hk])).mp h
      exact hspan
  · rename_i hk
    obtain ⟨es, os, rfl, hspan⟩ := (reads_pipe (Deeper IsBlock s.levels) (by simp [hk])).mp h
    exact hspan
  · rename_i hk
    obtain ⟨es, os, rfl, hspan⟩ := (reads_pipe (Deeper IsBlock s.levels) (by simp [hk])).mp h
    exact hspan
  · rename_i hk
    obtain ⟨es, os, rfl, hspan⟩ := (reads_pipeFromBracket (Deeper IsBlock s.levels) hk).mp h
    exact hspan
  · exact absurd h not_reads_fail

/-- A pipe is read, whatever its inputs begin with. -/
theorem reads_statement_of_spans_pipe {es : List Expression} {os : List Parameter}
    (h : Spans (IsStatement s.levels) s (.pipe es os) t) :
    Reads (statementOver block) s.advance (.pipe es os) t := by
  obtain ⟨u, hes, -⟩ := spans_pipe.mp h
  have hstart := startsOperand_of_spans_inputs hes
  simp only [statementOver, reads_current_bind, current_advance]
  split
  · rename_i hk
    exact (reads_groupOrPipe hk).mpr h
  · rename_i hk
    simp [hk, startsOperand] at hstart
  · rename_i hk
    -- no bracket follows the name, since an operator or the arrow does, so that this is no call
    have hpipe := (reads_pipe (Deeper IsBlock s.levels) (by simp [hk])).mpr ⟨es, os, rfl, h⟩
    simp only [reads_aheadIs_bind, reads_ite, beq_iff_eq]
    refine .inr ⟨?_, hpipe⟩
    obtain ⟨e, v, he, hfrom⟩ := reads_bind.mp hpipe
    obtain ⟨_, -, harrow, -⟩ := reads_pipeFrom.mp hfrom
    exact ahead_ne_leftParen_of_reads_expressionTail
      ((reads_expression_register hk).mp he) harrow
  · rename_i hk
    exact (reads_pipe (Deeper IsBlock s.levels) (by simp [hk])).mpr ⟨es, os, rfl, h⟩
  · rename_i hk
    exact (reads_pipe (Deeper IsBlock s.levels) (by simp [hk])).mpr ⟨es, os, rfl, h⟩
  · rename_i hk
    exact (reads_pipeFromBracket (Deeper IsBlock s.levels) hk).mpr ⟨es, os, rfl, h⟩
  · rename_i h₁ h₂ h₃ h₄ h₅ h₆
    cases hk : s.ahead.kind <;> simp_all [startsOperand]

/-- A statement is read exactly where there is one. -/
theorem reads_statement (ih : ∀ n, s.levels = n + 1 → ReadsBlocks n) :
    Reads (statementOver block) s.advance st t ↔ Spans (IsStatement s.levels) s st t := by
  refine ⟨spans_of_reads_statement ih, fun h => ?_⟩
  cases st with
  | group x ps =>
    have hk := (spans_group.mp h).1
    rw [statementOver, reads_current_bind, current_advance, hk]
    exact (reads_groupOrPipe hk).mpr h
  | call x es os =>
    obtain ⟨hk, -, u, v, hes, -⟩ := spans_call.mp h
    have hopen := (spans_bracketed.mp hes).1
    rw [statementOver, reads_current_bind, current_advance, hk]
    simp only [reads_aheadIs_bind, reads_ite, beq_iff_eq]
    exact .inl ⟨hopen, (reads_call (Deeper IsBlock s.levels) hk hopen).mpr ⟨x, es, os, rfl, h⟩⟩
  | pipe es os => exact reads_statement_of_spans_pipe h
  | clock d c b =>
    have hk := (spans_clock.mp h).1
    rw [statementOver, reads_current_bind, current_advance, hk]
    exact (reads_clockOver ih hk).mpr ⟨d, c, b, rfl, h⟩

/-! ## Blocks -/

/-- A statement begins neither with a closing brace nor with the end of the text. -/
theorem goesOn_of_spans (h : Spans (StatementOver n body) s st t) :
    goesOn s.ahead.kind = true := by
  cases st with
  | group x ps => simp [(spans_group.mp h).1, goesOn]
  | call x es os => simp [(spans_call.mp h).1, goesOn]
  | pipe es os =>
    obtain ⟨u, hes, -⟩ := spans_pipe.mp h
    have hstart := startsOperand_of_spans_inputs hes
    cases hk : s.ahead.kind <;> simp_all [startsOperand, goesOn]
  | clock d c b => simp [(spans_clock.mp h).1, goesOn]

theorem not_goesOn_endOfText : goesOn .endOfText = false := rfl

/-- The loop that reads the statements of a block. -/
abbrev statements : Production (List Statement) :=
  whileAhead goesOn not_goesOn_endOfText (statementOver block)

theorem reads_statements {b : List Statement} (ih : ∀ n, s.levels = n + 1 → ReadsBlocks n)
    (hclose : t.ahead.kind = .rightBrace) :
    Reads statements s b t ↔ Spans (IsBlock s.levels) s b t := by
  rw [isBlock_eq]
  induction b generalizing s with
  | nil =>
    rw [spans_many_nil]
    constructor
    · exact fun h => (reads_whileAhead_nil.mp h).2
    · rintro rfl
      exact reads_whileAhead_nil.mpr ⟨by simp [hclose, goesOn], rfl⟩
  | cons st b ihb =>
    rw [spans_many_cons]
    constructor
    · intro h
      obtain ⟨-, u, hst, hmore⟩ := reads_whileAhead_cons.mp h
      have hspan := (reads_statement ih).mp hst
      have hmore := (ihb (by rw [hspan.levels]; exact ih)).mp hmore
      rw [hspan.levels] at hmore
      exact ⟨u, hspan, hmore⟩
    · rintro ⟨u, hspan, hmore⟩
      have hread : Reads statements u b t :=
        (ihb (by rw [hspan.levels]; exact ih)).mpr (by rw [hspan.levels]; exact hmore)
      exact reads_whileAhead_cons.mpr
        ⟨goesOn_of_spans hspan, u, (reads_statement ih).mpr hspan, hread⟩

theorem readsBlocks (n : Nat) : ReadsBlocks n := by
  induction n using Nat.strongRecOn with
  | ind n ihn =>
    intro s b t hn
    have ih : ∀ m, s.levels = m + 1 → ReadsBlocks m := fun m hm => ihn m (by omega)
    subst hn
    rw [block_eq]
    constructor
    · intro h
      obtain ⟨b', u, hb, h⟩ := reads_bind.mp h
      simp only [reads_expect_bind, reads_pure] at h
      obtain ⟨hclose, rfl, rfl⟩ := h
      exact ⟨u, (reads_statements ih hclose).mp hb, hclose, rfl⟩
    · rintro ⟨u, hb, hclose, rfl⟩
      exact reads_bind.mpr ⟨b, u, (reads_statements ih hclose).mpr hb, by simp [hclose]⟩

/-- A block is read exactly where there is one that a closing brace follows. -/
theorem reads_block {b : List Statement} :
    Reads block s b t ↔
      ∃ u, Spans (IsBlock s.levels) s b u ∧ u.ahead.kind = .rightBrace ∧ t = u.advance :=
  readsBlocks s.levels rfl

end Grammar
end CircuitText
