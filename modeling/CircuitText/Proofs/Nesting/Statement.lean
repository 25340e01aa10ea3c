import CircuitText.Proofs.Nesting.Expression
import CircuitText.Proofs.Parsing.Statement

/-!
# Statements that are nested too deep

Of the parts of a statement only expressions and the bodies of clocks open levels.  The production
for a statement chooses by the first words, and what it does not choose can meet nothing: a bracket
behind a name leaves no pipe, and a list in front of a pipe leaves a word to be met behind it only
as an operand.

* `not_refuses_delay`, `not_refuses_pipeFrom`, … --- what opens no level;
* `refuses_pipe`, `refuses_pipeFromBracket`, `refuses_groupOrPipe`, `refuses_call`,
  `refuses_clockOver` --- the sorts of statement;
* `refuses_statement`, `refuses_block` --- statements and blocks.
-/

namespace CircuitText
namespace Grammar

open scoped Computability

variable {α : Type} {s t u : State} {σ : Span} {n : Nat}

/-! ## What opens no level -/

@[simp] theorem not_refuses_registerName : ¬ Fails registerName s (.tooDeep σ) := by
  simp [registerName]

@[simp] theorem not_refuses_parameter : ¬ Fails parameter s (.tooDeep σ) := by
  rw [parameter, fails_current_bind]
  split <;> simp

@[simp] theorem not_refuses_registerNames : ¬ Fails (list registerName) s (.tooDeep σ) :=
  not_refuses_list not_refuses_registerName

@[simp] theorem not_refuses_parameters : ¬ Fails (list parameter) s (.tooDeep σ) :=
  not_refuses_list not_refuses_parameter

@[simp] theorem not_refuses_delay : ¬ Fails delay s (.tooDeep σ) := by
  rw [delay, fails_current_bind]
  split
  · simp [Fault.tooDeep]
  · simp only [fails_ahead_bind, fails_ite, fails_fail, fails_advance_bind]
    rintro (⟨-, h⟩ | ⟨-, h⟩)
    · cases h
    · split at h
      · cases fails_fail.mp h
      · split at h
        · cases fails_fail.mp h
        · exact not_fails_pure h

@[simp] theorem not_refuses_pipeOutputs : ¬ Fails pipeOutputs s (.tooDeep σ) := by
  simp [pipeOutputs]

@[simp] theorem not_refuses_pipeFrom {es : List Expression} :
    ¬ Fails (pipeFrom es) s (.tooDeep σ) := by
  simp [pipeFrom, fails_bind (p := pipeOutputs)]

@[simp] theorem not_refuses_callOutputs : ¬ Fails callOutputs s (.tooDeep σ) := by
  simp [callOutputs]

@[simp] theorem not_refuses_counter : ¬ Fails counter s (.tooDeep σ) := by
  simp [counter]

/-! ## Pipes -/

/-- The rule for the inputs of a pipe, for the word for which no level is left. -/
theorem meets_inputs :
    Meets n (Marked.inputs Marked.expressions) s σ ↔
      (Meets n Marked.expressions s σ ∧ s.ahead.kind ≠ .leftParen) ∨
        Meets n (Marked.list Marked.expressions) s σ ∨
        ∃ t, (∃ e, Spans (Bracketed (IsExpression n)) s e t) ∧ t.ahead.kind = .infixOp ∧
          Meets n Marked.expressions t.advance σ := by
  have hlist : s.ahead.kind = .leftParen ∧ Meets n Marked.expressions s.advance σ →
      Meets n (Marked.list Marked.expressions) s σ := fun ⟨hk, h⟩ => meets_list.mpr ⟨hk, .inl h⟩
  simp only [Marked.inputs, meets_add, mul_assoc, meets_mul, meets_bare, meets_bracketed,
    not_meets_plain, false_or, within_plain, within_bracketed (within_expressions n),
    crosses_wordsOf, ne_eq, reduceCtorEq, not_false_eq_true, crosses_ofKind, and_assoc,
    exists_and_left, exists_eq_left]
  tauto

theorem meets_inputs_bare (hopen : s.ahead.kind ≠ .leftParen) :
    Meets n (Marked.inputs Marked.expressions) s σ ↔ Meets n Marked.expressions s σ := by
  rw [meets_inputs, meets_list]
  simp [hopen, spans_bracketed]

theorem refuses_pipe (hopen : s.ahead.kind ≠ .leftParen) :
    Fails pipe s.advance (.tooDeep σ) ↔
      Meets s.levels (Marked.inputs Marked.expressions) s σ := by
  rw [pipe, fails_bind, refuses_expression, meets_inputs_bare hopen]
  simp

/-- A pipe that begins with a bracket is refused in the list, or behind it if an infix operator
makes the list an operand. -/
theorem refuses_pipeFromBracket (hopen : s.ahead.kind = .leftParen) :
    Fails pipeFromBracket s.advance (.tooDeep σ) ↔
      Meets s.levels (Marked.inputs Marked.expressions) s σ := by
  rw [pipeFromBracket, fails_bind, refuses_listWithComma hopen, meets_inputs]
  simp only [hopen, ne_eq, not_true_eq_false, and_false, false_or]
  refine or_congr Iff.rfl ?_
  constructor
  · rintro ⟨⟨es, comma⟩, t, hread, hfails⟩
    split at hfails
    · rename_i first heq
      obtain ⟨rfl, rfl⟩ := Prod.mk.inj heq
      have hspan := (reads_listWithComma_single hopen).mp hread
      simp only [fails_aheadIs_bind, fails_ite, beq_iff_eq, fails_bind (p := expressionTail _),
        not_refuses_pipeFrom, and_false, exists_false, or_false, refuses_expressionTail,
        hspan.levels] at hfails
      exact ⟨t, ⟨first, hspan⟩, hfails.2⟩
    · exact absurd hfails not_refuses_pipeFrom
  · rintro ⟨t, ⟨e, hspan⟩, hoperator, hmeets⟩
    refine ⟨([e], false), t, (reads_listWithComma_single hopen).mpr hspan, ?_⟩
    simp only [fails_aheadIs_bind, fails_ite, beq_iff_eq, fails_bind (p := expressionTail _),
      refuses_expressionTail, hspan.levels]
    exact .inl ⟨hoperator, .inl ⟨hoperator, hmeets⟩⟩

theorem fails_expression_register (hk : s.ahead.kind = .ident) :
    Fails expression s.advance (.tooDeep σ) ↔
      Fails (expressionTail (.register s.ahead.literal)) s.advance (.tooDeep σ) := by
  rw [fails_expression]
  simp [operandOver, hk, expressionTail, tailOver_eq]

theorem fails_expression_group (hk : s.ahead.kind = .percent) :
    Fails expression s.advance (.tooDeep σ) ↔ s.advance.ahead.kind = .ident ∧
      Fails (expressionTail (.group s.advance.ahead.literal)) s.advance.advance (.tooDeep σ) := by
  rw [fails_expression]
  simp [operandOver, hk, expressionTail, tailOver_eq, reads_bind (p := expectName)]

/-- Behind the name of a group there is a list of parameters, which opens no level, or the rest of
an expression. -/
theorem refuses_groupOrPipe (hk : s.ahead.kind = .percent) :
    Fails groupOrPipe s.advance (.tooDeep σ) ↔
      Meets s.levels (Marked.inputs Marked.expressions) s σ := by
  rw [meets_inputs_bare (by simp [hk]), ← refuses_expression, fails_expression_group hk]
  simp only [groupOrPipe, fails_expectName_bind, tooDeep_ne_expected, and_false, false_or,
    fails_aheadIs_bind, fails_ite, beq_iff_eq, fails_advance_bind, fails_bind (p := list parameter),
    not_refuses_parameters, fails_expect_bind, not_fails_pure, exists_false,
    fails_bind (p := expressionTail _), not_refuses_pipeFrom, or_false, current_advance]
  refine and_congr_right fun _ => and_iff_right_of_imp fun h => ?_
  simp [(refuses_expressionTail.mp h).1]

theorem refuses_call (hopen : s.advance.ahead.kind = .leftParen) :
    Fails call s.advance (.tooDeep σ) ↔
      Meets s.levels (Marked.list Marked.expressions) s.advance σ := by
  rw [← levels_advance, ← refuses_list hopen]
  simp [call, fails_bind (p := list expression), fails_bind (p := callOutputs)]

/-! ## Clocks -/

/-- With `n` levels left, a block is refused at the first word for which no level is left. -/
def RefusesBlocks (n : Nat) : Prop := ∀ {s σ}, s.levels = n →
  (Fails block s (.tooDeep σ) ↔ Meets n Marked.blocks s σ)

theorem spans_isPeriod {d : Delay} :
    Spans IsPeriod s d t ↔ s.ahead.kind = .number ∧ s.advance.ahead.kind = .ident ∧
      Delay.IsWritten s.ahead.literal s.advance.ahead.literal d ∧ t = s.advance.advance := by
  constructor
  · rintro ⟨_, ⟨m, u, rfl, hd⟩, hpass⟩
    simp only [ne_eq, reduceCtorEq, not_false_eq_true, passes_word, passes_nil] at hpass
    obtain ⟨hn, rfl, hi, rfl, rfl⟩ := hpass
    exact ⟨hn, hi, hd, rfl⟩
  · rintro ⟨hn, hi, hd, rfl⟩
    exact ⟨_, ⟨_, _, rfl, hd⟩, by simp [hn, hi]⟩

/-- A clock is refused at the brace of its body or inside. -/
theorem refuses_clockOver (ih : ∀ m, s.levels = m + 1 → RefusesBlocks m)
    (hk : s.ahead.kind = .clock) :
    Fails (clockOver block) s.advance (.tooDeep σ) ↔
      ∃ t, Crosses (ofKind .clock * wordsOf IsPeriod * wordsOf IsCounter) s t ∧
        Meets s.levels (nest .leftBrace Marked.blocks) t σ := by
  have hbody : ∀ {d c r t}, Spans IsPeriod s.advance d r → Spans IsCounter r c t →
      t.ahead.kind = .leftBrace → (Fails (nested block) t.advance (.tooDeep σ) ↔
        Meets s.levels (nest .leftBrace Marked.blocks) t σ) := by
    intro d c r t hd hc hopen
    have hlevels : t.levels = s.levels := by rw [hc.levels, hd.levels, levels_advance]
    rw [← hlevels] at ih ⊢
    refine refuses_nest (by simp) hopen fun m hm => ?_
    rw [ih m hm (levels_advance_deeper hm), meets_deeper]
  simp only [clockOver, fails_expect_bind, fails_bind (p := delay), fails_bind (p := counter),
    fails_bind_pure, reads_delay, current_advance, crosses_mul, crosses_wordsOf,
    not_refuses_delay, not_refuses_counter, tooDeep_ne_expected, and_false, false_or, ne_eq,
    reduceCtorEq, not_false_eq_true, crosses_ofKind, hk, true_and, exists_eq_left]
  constructor
  · rintro ⟨hn, d, _, ⟨hi, hd, rfl⟩, c, t, hread, hopen, hfails⟩
    have hperiod := spans_isPeriod.mpr ⟨hn, hi, hd, rfl⟩
    have hcounter := (reads_counter hopen).mp hread
    exact ⟨t, ⟨_, ⟨d, hperiod⟩, c, hcounter⟩, (hbody hperiod hcounter hopen).mp hfails⟩
  · rintro ⟨t, ⟨r, ⟨d, hperiod⟩, c, hcounter⟩, hmeets⟩
    obtain ⟨hn, hi, hd, hr⟩ := spans_isPeriod.mp hperiod
    have hopen := ((meets_nest (by simp)).mp hmeets).1
    exact ⟨hn, d, r, ⟨hi, hd, hr⟩, c, t, (reads_counter hopen).mpr hcounter, hopen,
      (hbody hperiod hcounter hopen).mpr hmeets⟩

/-! ## Statements -/

/-- The rule for statements, for the word for which no level is left. -/
theorem meets_statements :
    Meets n Marked.statements s σ ↔
      (s.ahead.kind = .ident ∧ Meets n (Marked.list Marked.expressions) s.advance σ) ∨
        Meets n (Marked.inputs Marked.expressions) s σ ∨
        ∃ t, Crosses (ofKind .clock * wordsOf IsPeriod * wordsOf IsCounter) s t ∧
          Meets n (nest .leftBrace Marked.blocks) t σ := by
  simp only [Marked.statements, Marked.statement, meets_add, meets_mul, not_meets_plain, false_or,
    or_false, and_false, exists_false, within_plain, ne_eq, reduceCtorEq, not_false_eq_true,
    crosses_ofKind, and_assoc, exists_and_left, exists_eq_left, or_assoc]

theorem startsOperand_of_meets_inputs
    (h : Meets n (Marked.inputs Marked.expressions) s σ) : startsOperand s.ahead.kind = true := by
  by_cases hopen : s.ahead.kind = .leftParen
  · rw [hopen]
    rfl
  · exact startsOperand_of_meets ((meets_inputs_bare hopen).mp h)

/-- A bracket behind the name of a register makes a call, and there is no such pipe. -/
theorem not_meets_inputs_of_call (hk : s.ahead.kind = .ident)
    (hopen : s.advance.ahead.kind = .leftParen) :
    ¬ Meets s.levels (Marked.inputs Marked.expressions) s σ := by
  rw [meets_inputs_bare (by simp [hk]), ← refuses_expression, fails_expression_register hk,
    refuses_expressionTail]
  simp [hopen]

/-- A statement is refused at the first word for which no level is left. -/
theorem refuses_statement (ih : ∀ m, s.levels = m + 1 → RefusesBlocks m) :
    Fails (statementOver block) s.advance (.tooDeep σ) ↔ Meets s.levels Marked.statements s σ := by
  have hstart := startsOperand_of_meets_inputs (n := s.levels) (s := s) (σ := σ)
  have hclock : (∃ t, Crosses (ofKind .clock * wordsOf IsPeriod * wordsOf IsCounter) s t ∧
      Meets s.levels (nest .leftBrace Marked.blocks) t σ) → s.ahead.kind = .clock := by
    rintro ⟨t, hcross, -⟩
    rw [mul_assoc, crosses_mul] at hcross
    obtain ⟨r, hcross, -⟩ := hcross
    exact ((crosses_ofKind (by simp)).mp hcross).1
  rw [meets_statements, statementOver, fails_current_bind, current_advance]
  split
  · rename_i hk
    rw [refuses_groupOrPipe hk, or_iff_left (mt hclock (by simp [hk]))]
    simp [hk]
  · rename_i hk
    have hnone : ¬ Meets s.levels (Marked.inputs Marked.expressions) s σ :=
      mt hstart (by simp [hk, startsOperand])
    rw [refuses_clockOver ih hk, or_iff_right hnone]
    simp [hk]
  · rename_i hk
    rw [or_iff_left (mt hclock (by simp [hk])), fails_aheadIs_bind, fails_ite, beq_iff_eq]
    by_cases hopen : s.advance.ahead.kind = .leftParen
    · rw [refuses_call hopen, or_iff_left (not_meets_inputs_of_call hk hopen)]
      simp [hk, hopen]
    · rw [refuses_pipe (by simp [hk]), meets_list]
      simp [hopen]
  · rename_i hk
    rw [refuses_pipe (by simp [hk]), or_iff_left (mt hclock (by simp [hk]))]
    simp [hk]
  · rename_i hk
    rw [refuses_pipe (by simp [hk]), or_iff_left (mt hclock (by simp [hk]))]
    simp [hk]
  · rename_i hk
    rw [refuses_pipeFromBracket hk, or_iff_left (mt hclock (by simp [hk]))]
    simp [hk]
  · rename_i h₁ h₂ h₃ h₄ h₅ h₆
    have hnone : ¬ Meets s.levels (Marked.inputs Marked.expressions) s σ := by
      intro h
      have := hstart h
      cases hk : s.ahead.kind <;> simp_all [startsOperand]
    rw [or_iff_left (mt hclock h₂), or_iff_left hnone, fails_fail]
    simp [show s.ahead.kind ≠ .ident from h₃]

/-! ## Blocks -/

/-- What is refused at its front is no end of a block. -/
theorem goesOn_of_refuses {inner : Production (List Statement)}
    (h : Fails (statementOver inner) s.advance (.tooDeep σ)) : goesOn s.ahead.kind = true := by
  by_contra hend
  have hkind : s.ahead.kind = .rightBrace ∨ s.ahead.kind = .endOfText := by
    rw [goesOn] at hend
    by_cases hk : s.ahead.kind = .rightBrace
    · exact .inl hk
    · exact .inr (by simpa [hk] using hend)
  rcases hkind with hk | hk <;> simp [statementOver, hk] at h

/-- The loop over the statements is refused at the first word for which no level is left. -/
theorem refuses_statements (ih : ∀ m, s.levels = m + 1 → RefusesBlocks m) :
    Fails statements s (.tooDeep σ) ↔ Meets s.levels Marked.blocks s σ := by
  induction hrem : s.remaining using Nat.strongRecOn generalizing s with
  | ind r ihr =>
    have hread : ∀ {st t}, Reads (statementOver block) s.advance st t ↔
        Spans (IsStatement s.levels) s st t := reads_statement fun m _ => readsBlocks m
    -- behind a statement the loop goes on as it began, with the same levels
    have hmore : ∀ {st t}, Spans (IsStatement s.levels) s st t →
        (Fails statements t (.tooDeep σ) ↔ Meets s.levels Marked.blocks t σ) := by
      intro st t hspan
      have hlt : s.advance.remaining < s.remaining :=
        s.remaining_advance_lt fun hend => by simpa [hend, goesOn] using goesOn_of_spans hspan
      have hle := (hread.mpr hspan).remaining_le
      rw [ihr t.remaining (by omega) (by rwa [hspan.levels]) rfl, hspan.levels]
    conv_rhs => rw [Marked.blocks_eq, meets_kstar, ← Marked.blocks_eq]
    rw [within_statements, fails_whileAhead, ← refuses_statement ih]
    simp only [crosses_wordsOf]
    constructor
    · rintro ⟨-, hfails | ⟨st, t, hst, hfails⟩⟩
      · exact .inl hfails
      · have hspan := hread.mp hst
        exact .inr ⟨t, ⟨st, hspan⟩, (hmore hspan).mp hfails⟩
    · rintro (hfails | ⟨t, ⟨st, hspan⟩, hmeets⟩)
      · exact ⟨goesOn_of_refuses hfails, .inl hfails⟩
      · exact ⟨goesOn_of_spans hspan,
          .inr ⟨st, t, hread.mpr hspan, (hmore hspan).mpr hmeets⟩⟩

theorem refusesBlocks (n : Nat) : RefusesBlocks n := by
  induction n using Nat.strongRecOn with
  | ind n ihn =>
    intro s σ hn
    subst hn
    have ih : ∀ m, s.levels = m + 1 → RefusesBlocks m := fun m hm => ihn m (by omega)
    rw [block_eq]
    refine (fails_bind (p := statements)).trans ?_
    rw [refuses_statements ih]
    simp

/-- A block is refused at the first word for which no level is left. -/
theorem refuses_block : Fails block s (.tooDeep σ) ↔ Meets s.levels Marked.blocks s σ :=
  refusesBlocks s.levels rfl

end Grammar
end CircuitText
