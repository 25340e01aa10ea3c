import CircuitText.Proofs.Parsing.Expression

/-!
# The loop and the rule

The rule for expressions is recursive: an expression is an operand, and if an infix operator
follows, the operator and the expression behind it.  `ruleOver` reads by this rule.  The production
reads the operators and operands in a loop and puts them together afterwards, from the back; it does
just the same, whether it succeeds or not, and so reading expressions is the only way to read by the
rule that reads by the rule itself what is inside the operands.

* `ruleOver` --- reads an expression by the rule;
* `tailOver_of_infixOp` --- the loop, one round taken off;
* `expressionOver_eq_ruleOver` --- the loop and the rule;
* `eq_expression_of_eq_ruleOver` --- there is one solution only;
* `LeadsTo`, `expression_of_leadsTo` --- chains of operands of any length;
* `expression_reads_by_rule` --- all of this together.
-/

namespace CircuitText
namespace Grammar

variable {inner : Production Expression} {s t u : State} {left operand last : Expression}
  {f : Fault}

/-- Reads an expression by the rule: an operand and, if an infix operator follows, the expression
behind the operator.  `inner` reads the expressions inside the operands. -/
def ruleOver (inner : Production Expression) (s : State) : Outcome s Expression :=
  match operandOver inner s with
  | ⟨.error f, t, le⟩ => ⟨.error f, t, le⟩
  | ⟨.ok left, t, le⟩ =>
    if h : t.ahead.kind = .infixOp then
      have _shorter : t.advance.advance.remaining < s.remaining :=
        Nat.lt_of_le_of_lt t.advance.remaining_advance_le
          (Nat.lt_of_lt_of_le (t.remaining_advance_lt (by simp [h])) le)
      match ruleOver inner t.advance.advance with
      | ⟨.error f, u, le'⟩ => ⟨.error f, u, by omega⟩
      | ⟨.ok right, u, le'⟩ => ⟨.ok (.binary left t.advance.current.literal right), u, by omega⟩
    else ⟨.ok left, t, le⟩
termination_by s.remaining

/-! ## What comes of a production -/

section Outcomes

variable {α β : Type} {p : Production α} {g : α → Production β} {a : α}
  {le : t.remaining ≤ s.remaining}

theorem Outcome.eq_of {o o' : Outcome s α} (hresult : o.result = o'.result)
    (hafter : o.after = o'.after) : o = o' := by
  cases o
  cases o'
  cases hresult
  cases hafter
  rfl

theorem eq_ok_of_reads (h : Reads p s a t) : ∃ le, p s = ⟨.ok a, t, le⟩ := by
  obtain ⟨hresult, rfl⟩ := h
  exact ⟨(p s).remaining_le, Outcome.eq_of hresult rfl⟩

/-- The form in which a given reading can be computed. -/
theorem reads_of_toOption (h : (p s).result.toOption = some a) : Reads p s a (p s).after := by
  refine ⟨?_, rfl⟩
  cases hresult : (p s).result with
  | error f => simp [hresult, Except.toOption] at h
  | ok b => simpa [hresult, Except.toOption] using h

theorem exists_eq_error (hresult : (p s).result = .error f) (hafter : (p s).after = t) :
    ∃ le, p s = ⟨.error f, t, le⟩ := by
  subst hafter
  exact ⟨(p s).remaining_le, Outcome.eq_of hresult rfl⟩

theorem bind_of_error (h : p s = ⟨.error f, t, le⟩) : (p >>= g) s = ⟨.error f, t, le⟩ := by
  show Production.bind p g s = _
  rw [Production.bind, h]

theorem bind_of_ok (h : p s = ⟨.ok a, t, le⟩) : (p >>= g) s = (g a t).since le := by
  show Production.bind p g s = _
  rw [Production.bind, h]

/-- What is made of a reading afterwards makes no difference to the state. -/
theorem bind_pure_eq (p : Production α) (k : α → β) (s : State) :
    ((p >>= fun a => pure (k a)) s).result = (p s).result.map k ∧
      ((p >>= fun a => pure (k a)) s).after = (p s).after := by
  rcases h : p s with ⟨result, t, le⟩
  cases result with
  | error f =>
    rw [bind_of_error h]
    exact ⟨rfl, rfl⟩
  | ok a =>
    rw [bind_of_ok h]
    exact ⟨rfl, rfl⟩

variable {wanted : Kind → Bool} (stops : wanted .endOfText = false)

theorem whileAhead_of_ne (h : wanted s.ahead.kind = false) :
    whileAhead wanted stops p s = ⟨.ok [], s, Nat.le_refl _⟩ := by
  rw [whileAhead, dif_neg (by simp [h])]

theorem whileAhead_of_error (hwanted : wanted s.ahead.kind = true)
    {le : t.remaining ≤ s.advance.remaining} (h : p s.advance = ⟨.error f, t, le⟩) :
    whileAhead wanted stops p s = ⟨.error f, t, Nat.le_trans le s.remaining_advance_le⟩ := by
  rw [whileAhead, dif_pos hwanted, h]

theorem whileAhead_of_ok (hwanted : wanted s.ahead.kind = true)
    {le : t.remaining ≤ s.advance.remaining} (h : p s.advance = ⟨.ok a, t, le⟩) :
    (whileAhead wanted stops p s).result = (whileAhead wanted stops p t).result.map (a :: ·) ∧
      (whileAhead wanted stops p s).after = (whileAhead wanted stops p t).after := by
  rw [whileAhead, dif_pos hwanted, h]
  dsimp only
  rcases whileAhead wanted stops p t with ⟨result, u, le'⟩
  cases result <;> exact ⟨rfl, rfl⟩

end Outcomes

/-! ## One round of the loop -/

/-- The fault of the operand behind an operator ends the loop. -/
theorem operationsOver_of_error {le : u.remaining ≤ t.advance.advance.remaining}
    (hk : t.ahead.kind = .infixOp) (h : operandOver inner t.advance.advance = ⟨.error f, u, le⟩) :
    (operationsOver inner t).result = .error f ∧ (operationsOver inner t).after = u := by
  have hoperation : operationOver inner t.advance =
      ⟨.error f, u, Nat.le_trans le t.advance.remaining_advance_le⟩ := by
    rw [operationOver, bind_of_ok rfl, bind_of_ok rfl, bind_of_error h]
    rfl
  rw [operationsOver, whileAhead_of_error _ (by simp [hk]) hoperation]
  exact ⟨rfl, rfl⟩

/-- Behind an operator and its operand the loop goes on. -/
theorem operationsOver_of_ok {le : u.remaining ≤ t.advance.advance.remaining}
    (hk : t.ahead.kind = .infixOp)
    (h : operandOver inner t.advance.advance = ⟨.ok operand, u, le⟩) :
    (operationsOver inner t).result =
        (operationsOver inner u).result.map ((t.advance.current.literal, operand) :: ·) ∧
      (operationsOver inner t).after = (operationsOver inner u).after := by
  have hoperation : operationOver inner t.advance = ⟨.ok (t.advance.current.literal, operand), u,
      Nat.le_trans le t.advance.remaining_advance_le⟩ := by
    rw [operationOver, bind_of_ok rfl, bind_of_ok rfl, bind_of_ok h]
    rfl
  exact whileAhead_of_ok _ (by simp [hk]) hoperation

/-- Where no infix operator is ahead the loop ends at once. -/
theorem tailOver_of_ne (h : t.ahead.kind ≠ .infixOp) :
    tailOver inner left t = ⟨.ok left, t, Nat.le_refl _⟩ := by
  rw [tailOver_eq, bind_of_ok (whileAhead_of_ne endOfText_ne_infixOp (by simpa using h))]
  rfl

/-- Where an infix operator is ahead, the loop reads what is read as an expression behind the
operator, and gives it to the operator. -/
theorem tailOver_of_infixOp (inner : Production Expression) (left : Expression)
    (h : t.ahead.kind = .infixOp) :
    (tailOver inner left t).result = (expressionOver inner t.advance.advance).result.map
        (.binary left t.advance.current.literal) ∧
      (tailOver inner left t).after = (expressionOver inner t.advance.advance).after := by
  obtain ⟨hresult, hafter⟩ := bind_pure_eq (operationsOver inner) (assemble left) t
  rw [tailOver_eq, hresult, hafter]
  rcases hoperand : operandOver inner t.advance.advance with ⟨result, u, le⟩
  cases result with
  | error f =>
    obtain ⟨hops, hend⟩ := operationsOver_of_error h hoperand
    rw [hops, hend, expressionOver, bind_of_error hoperand]
    exact ⟨rfl, rfl⟩
  | ok operand =>
    obtain ⟨hops, hend⟩ := operationsOver_of_ok h hoperand
    obtain ⟨hresult', hafter'⟩ := bind_pure_eq (operationsOver inner) (assemble operand) u
    rw [hops, hend, expressionOver, bind_of_ok hoperand, tailOver_eq]
    refine ⟨?_, hafter'.symm⟩
    refine Eq.trans ?_ (congrArg (Except.map _) hresult'.symm)
    cases (operationsOver inner u).result with
    | error f => rfl
    | ok ops =>
      show Except.ok (assemble left ((t.advance.current.literal, operand) :: ops)) =
        Except.ok (.binary left t.advance.current.literal (assemble operand ops))
      rw [assemble_eq_chain, assemble_eq_chain, chain_cons]

/-! ## The rule -/

/-- The loop reads by the rule. -/
theorem expressionOver_eq_ruleOver (inner : Production Expression) :
    expressionOver inner = ruleOver inner := by
  funext s
  fun_induction ruleOver inner s with
  | case1 s f t le hoperand => exact bind_of_error hoperand
  | case2 s left t le hoperand hk _ f u le' hrest ih =>
    obtain ⟨hresult, hafter⟩ := tailOver_of_infixOp inner left hk
    rw [ih, hrest] at hresult hafter
    rw [expressionOver, bind_of_ok hoperand]
    exact Outcome.eq_of hresult hafter
  | case3 s left t le hoperand hk _ right u le' hrest ih =>
    obtain ⟨hresult, hafter⟩ := tailOver_of_infixOp inner left hk
    rw [ih, hrest] at hresult hafter
    rw [expressionOver, bind_of_ok hoperand]
    exact Outcome.eq_of hresult hafter
  | case4 s left t le hoperand hk =>
    rw [expressionOver, bind_of_ok hoperand, tailOver_of_ne hk]
    rfl

/-- Reading expressions is the only production that reads by the rule and reads by itself what is
inside the operands: the induction is on the levels that are left, since what is inside the operands
is one level deeper. -/
theorem eq_expression_of_eq_ruleOver {p : Production Expression} (hp : p = ruleOver p) :
    p = expression := by
  rw [← expressionOver_eq_ruleOver] at hp
  have hagree : ∀ n d, nestingLimit - d = n → AgreeAt d expression p := by
    intro n
    induction n using Nat.strongRecOn with
    | ind n ih =>
      intro d hd
      rw [hp, expression_eq]
      refine AgreeAt.expressionOver (fun hlt => ?_) built_expression
      exact ih (nestingLimit - (d + 1)) (by omega) (d + 1) rfl
  funext s
  exact (hagree _ s.depth rfl s rfl).symm

/-! ## Chains -/

/-- Reading operands, with an infix operator behind each of them, leads from one state to another;
in both of them an operand begins with the current token. -/
inductive LeadsTo : State → List (Expression × String) → State → Prop
  | refl (s : State) : LeadsTo s [] s
  | step {s t u : State} {left : Expression} {front : List (Expression × String)}
      (hleft : Reads (operandOver expression) s left t) (hk : t.ahead.kind = .infixOp)
      (hmore : LeadsTo t.advance.advance front u) :
      LeadsTo s ((left, t.advance.current.literal) :: front) u

/-- The expression that operands and operators make with an expression behind them: each operator
takes all that follows. -/
def rightNested (front : List (Expression × String)) (e : Expression) : Expression :=
  front.foldr (fun x right => .binary x.1 x.2 right) e

/-- Behind an operand an expression goes on in the loop. -/
theorem expression_of_ok {le : t.remaining ≤ s.remaining}
    (h : operandOver expression s = ⟨.ok left, t, le⟩) :
    expression s = (tailOver expression left t).since le :=
  (congrFun expression_eq s).trans (bind_of_ok h)

/-- What is read behind operands and operators is what they make an expression with. -/
theorem expression_of_leadsTo {front : List (Expression × String)} (h : LeadsTo s front t) :
    (expression s).result = (expression t).result.map (rightNested front) ∧
      (expression s).after = (expression t).after := by
  induction h with
  | refl s =>
    refine ⟨?_, rfl⟩
    cases (expression s).result <;> rfl
  | @step s t u left front hleft hk hmore ih =>
    obtain ⟨hresult, hafter⟩ := tailOver_of_infixOp expression left hk
    obtain ⟨le, hoperand⟩ := eq_ok_of_reads hleft
    rw [← expression_eq] at hresult hafter
    rw [ih.1] at hresult
    rw [expression_of_ok hoperand]
    refine ⟨hresult.trans ?_, hafter.trans ih.2⟩
    cases (expression u).result <;> rfl

/-- Reading expressions is reading by the rule, and it alone is.  So a chain of operands is read as
the expression in which each operator takes all that follows, however long it is and whatever the
operands are, and the fault of one of the operands is the fault of the chain. -/
theorem expression_reads_by_rule :
    (expression = ruleOver expression ∧ ∀ p, p = ruleOver p → p = expression) ∧
    (∀ s front t last u, LeadsTo s front t → Reads (operandOver expression) t last u →
      u.ahead.kind ≠ .infixOp → Reads expression s (rightNested front last) u) ∧
    ∀ s front t f u, LeadsTo s front t → (operandOver expression t).result = .error f →
      (operandOver expression t).after = u →
      (expression s).result = .error f ∧ (expression s).after = u := by
  refine ⟨⟨?_, fun p hp => eq_expression_of_eq_ruleOver hp⟩, ?_, ?_⟩
  · rw [← expressionOver_eq_ruleOver, ← expression_eq]
  · intro s front t last u hfront hlast hend
    obtain ⟨hresult, hafter⟩ := expression_of_leadsTo hfront
    obtain ⟨le, hoperand⟩ := eq_ok_of_reads hlast
    rw [expression_of_ok hoperand, tailOver_of_ne hend] at hresult hafter
    exact ⟨hresult, hafter⟩
  · intro s front t f u hfront hfault hafter
    obtain ⟨hresult, hend⟩ := expression_of_leadsTo hfront
    obtain ⟨le, hoperand⟩ := exists_eq_error hfault hafter
    have hbehind : expression t = ⟨.error f, u, le⟩ :=
      (congrFun expression_eq t).trans (bind_of_error hoperand)
    rw [hbehind] at hresult hend
    exact ⟨hresult, hend⟩

/-- Three operators, with a bracket and a group among the operands. -/
theorem expression_reads_by_rule_three_operators :
    let s := State.start (.ofLexer (.ofText "a & (b | c) ^ %d ∧ 1".toList "here"))
    let front := [(Expression.register "a", "&"),
      (.binary (.register "b") "|" (.register "c"), "^"), (.group "d", "∧")]
    ∃ t u, LeadsTo s front t ∧ Reads (operandOver expression) t (.bit true) u ∧
      u.ahead.kind ≠ .infixOp ∧
      Reads expression s (.binary (.register "a") "&" (.binary
        (.binary (.register "b") "|" (.register "c")) "^"
          (.binary (.group "d") "∧" (.bit true)))) u := by
  intro s front
  let s₁ := (operandOver expression s).after
  let s₂ := (operandOver expression s₁.advance.advance).after
  let s₃ := (operandOver expression s₂.advance.advance).after
  let t := s₃.advance.advance
  let u := (operandOver expression t).after
  have hfirst : Reads (operandOver expression) s (.register "a") s₁ :=
    reads_of_toOption (by decide +kernel)
  have hsecond : Reads (operandOver expression) s₁.advance.advance
      (.binary (.register "b") "|" (.register "c")) s₂ := reads_of_toOption (by decide +kernel)
  have hthird : Reads (operandOver expression) s₂.advance.advance (.group "d") s₃ :=
    reads_of_toOption (by decide +kernel)
  have hlast : Reads (operandOver expression) t (.bit true) u :=
    reads_of_toOption (by decide +kernel)
  have hend : u.ahead.kind ≠ .infixOp := by decide +kernel
  have hsteps := LeadsTo.step hfirst (by decide +kernel) <| .step hsecond (by decide +kernel) <|
    .step hthird (by decide +kernel) (.refl t)
  have hoperators : [s₁, s₂, s₃].map (·.advance.current.literal) = ["&", "^", "∧"] := by
    decide +kernel
  have hfront : LeadsTo s front t := by
    simp only [List.map_cons, List.map_nil, List.cons.injEq, and_true] at hoperators
    rwa [hoperators.1, hoperators.2.1, hoperators.2.2] at hsteps
  exact ⟨t, u, hfront, hlast, hend,
    expression_reads_by_rule.2.1 s front t (.bit true) u hfront hlast hend⟩

end Grammar
end CircuitText
