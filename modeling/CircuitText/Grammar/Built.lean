import CircuitText.Grammar.Program

/-!
# How productions are built

Productions are functions, and nothing of a function tells what it does on the way.  But all of them
are put together from a few, which look at the tokens in sight, move on by one or give up, in a few
ways: one behind the other, one level deeper, and again and again.  `Built p` says that `p` is one
of these, and there is one lemma for each production.  What holds of the few and is carried along by
the ways of putting them together holds of every production, by one induction.

* `Built` --- productions that are put together from looking, moving on and giving up;
* `built_expression`, `built_block`, `built_program` --- the productions of the language.
-/

namespace CircuitText
namespace Grammar

/-- A production that is put together from looking, moving on and giving up. -/
inductive Built : {α : Type} → Production α → Prop
  | pure {α : Type} (a : α) : Built (pure a)
  | current : Built current
  | ahead : Built ahead
  | aheadIs (k : Kind) : Built (aheadIs k)
  | advance : Built advance
  | fail {α : Type} (f : Fault) : Built (fail f : Production α)
  | tooDeep {α : Type} : Built (tooDeep : Production α)
  | expect (k : Kind) : Built (expect k)
  | bind {α β : Type} {p : Production α} {f : α → Production β} (first : Built p)
      (second : ∀ a, Built (f a)) : Built (p >>= f)
  | nested {α : Type} {p : Production α} (inner : Built p) : Built (nested p)
  | whileAhead {α : Type} {wanted : Kind → Bool} (stops : wanted .endOfText = false)
      {p : Production α} (round : Built p) : Built (whileAhead wanted stops p)
  | untilEnd {α : Type} {p : Production α} (takes : Consumes p) (round : Built p) :
      Built (untilEnd p takes)
  /-- With as many levels as the state has left. -/
  | levels {α : Type} {p : Nat → Production α} (within : ∀ n, Built (p n)) :
      Built (fun s => p s.levels s)

variable {α : Type}

theorem built_expectName : Built expectName :=
  .bind (.expect _) fun _ => .bind .current fun _ => .pure _

/-! ### Expressions -/

theorem built_bit : Built bit := by
  refine .bind .current fun number => ?_
  split
  · exact .pure _
  · split
    · exact .pure _
    · exact .fail _

theorem built_operandOver {inner : Production Expression} (h : Built inner) :
    Built (operandOver inner) := by
  refine .bind .current fun first => ?_
  split
  · exact .pure _
  · exact built_bit
  · exact .nested (.bind .advance fun _ => .bind h fun _ => .bind (.expect _) fun _ => .pure _)
  · exact .nested (.bind .advance fun _ => .bind h fun _ => .pure _)
  · exact .bind built_expectName fun _ => .pure _
  · exact .fail _

theorem built_operationOver {inner : Production Expression} (h : Built inner) :
    Built (operationOver inner) :=
  .bind .current fun _ => .bind .advance fun _ => .bind (built_operandOver h) fun _ => .pure _

theorem built_tailOver {inner : Production Expression} (h : Built inner) (left : Expression) :
    Built (tailOver inner left) :=
  .bind (.whileAhead rfl (built_operationOver h)) fun _ => .pure _

theorem built_expressionOver {inner : Production Expression} (h : Built inner) :
    Built (expressionOver inner) :=
  .bind (built_operandOver h) fun _ => built_tailOver h _

theorem built_expressionWithin (levels : Nat) : Built (expressionWithin levels) := by
  induction levels with
  | zero => exact built_expressionOver .tooDeep
  | succ levels ih => exact built_expressionOver ih

theorem built_expression : Built expression := .levels built_expressionWithin

theorem built_expressionTail (left : Expression) : Built (expressionTail left) :=
  built_tailOver built_expression left

/-! ### Statements -/

theorem built_itemAfterComma {item : Production α} (h : Built item) :
    Built (itemAfterComma item) := by
  refine .bind (.aheadIs _) fun closes => ?_
  split
  · exact .pure _
  · exact .bind .advance fun _ => .bind h fun _ => .pure _

theorem built_listWithComma {item : Production α} (h : Built item) :
    Built (listWithComma item) := by
  refine .bind (.aheadIs _) fun closes => ?_
  split
  · exact .bind .advance fun _ => .pure _
  · exact .bind .advance fun _ => .bind h fun _ => .bind (.aheadIs _) fun _ =>
      .bind (.whileAhead rfl (built_itemAfterComma h)) fun _ => .bind (.expect _) fun _ => .pure _

theorem built_list {item : Production α} (h : Built item) : Built (list item) :=
  .bind (built_listWithComma h) fun _ => .pure _

theorem built_registerName : Built registerName := by
  refine .bind .current fun name => ?_
  split
  · exact .pure _
  · exact .fail _

theorem built_parameter : Built parameter := by
  refine .bind .current fun first => ?_
  split
  · exact .bind built_expectName fun _ => .pure _
  · exact .pure _
  · exact .fail _

theorem built_delay : Built delay := by
  refine .bind .current fun number => ?_
  split
  · exact .fail _
  · refine .bind .ahead fun word => ?_
    split
    · exact .fail _
    · refine .bind .advance fun _ => ?_
      split
      · exact .fail _
      · split
        · exact .fail _
        · exact .pure _

theorem built_pipeOutputs : Built pipeOutputs := by
  refine .bind (.aheadIs _) fun inList => ?_
  split
  · exact .bind .advance fun _ => built_list built_parameter
  · exact .bind .advance fun _ => .bind built_parameter fun _ => .pure _

theorem built_pipeFrom (inputs : List Expression) : Built (pipeFrom inputs) :=
  .bind (.expect _) fun _ => .bind built_pipeOutputs fun _ => .bind (.expect _) fun _ => .pure _

theorem built_pipe : Built pipe := .bind built_expression fun _ => built_pipeFrom _

theorem built_groupOrPipe : Built groupOrPipe := by
  refine .bind built_expectName fun name => .bind (.aheadIs _) fun opens => ?_
  split
  · exact .bind .advance fun _ => .bind (built_list built_parameter) fun _ =>
      .bind (.expect _) fun _ => .pure _
  · exact .bind (built_expressionTail _) fun _ => built_pipeFrom _

theorem built_callOutputs : Built callOutputs := by
  refine .bind (.aheadIs _) fun arrow => ?_
  split
  · exact .bind .advance fun _ => .bind (.expect _) fun _ => built_list built_parameter
  · exact .pure _

theorem built_call : Built call :=
  .bind .current fun _ => .bind .advance fun _ => .bind (built_list built_expression) fun _ =>
    .bind built_callOutputs fun _ => .bind (.expect _) fun _ => .pure _

theorem built_pipeFromBracket : Built pipeFromBracket := by
  refine .bind (built_listWithComma built_expression) fun inputs => ?_
  split
  · refine .bind (.aheadIs _) fun goesOn => ?_
    split
    · exact .bind (built_expressionTail _) fun _ => built_pipeFrom _
    · exact built_pipeFrom _
  · exact built_pipeFrom _

theorem built_counter : Built counter := by
  refine .bind (.aheadIs _) fun counts => ?_
  split
  · exact .bind .advance fun _ => .bind built_expectName fun _ => .pure _
  · exact .pure _

theorem built_clockOver {inner : Production (List Statement)} (h : Built inner) :
    Built (clockOver inner) :=
  .bind (.expect _) fun _ => .bind built_delay fun _ => .bind built_counter fun _ =>
    .bind (.expect _) fun _ => .bind (.nested h) fun _ => .pure _

theorem built_statementOver {inner : Production (List Statement)} (h : Built inner) :
    Built (statementOver inner) := by
  refine .bind .current fun first => ?_
  split
  · exact built_groupOrPipe
  · exact built_clockOver h
  · refine .bind (.aheadIs _) fun opens => ?_
    split
    · exact built_call
    · exact built_pipe
  · exact built_pipe
  · exact built_pipe
  · exact built_pipeFromBracket
  · exact .fail _

theorem built_blockOver {inner : Production (List Statement)} (h : Built inner) :
    Built (blockOver inner) :=
  .bind (.whileAhead rfl (built_statementOver h)) fun _ => .bind (.expect _) fun _ => .pure _

theorem built_blockWithin (levels : Nat) : Built (blockWithin levels) := by
  induction levels with
  | zero => exact built_blockOver .tooDeep
  | succ levels ih => exact built_blockOver ih

theorem built_block : Built block := .levels built_blockWithin

/-! ### Programs -/

theorem built_nameMark : Built nameMark := by
  refine .bind (.aheadIs _) fun byName => ?_
  split
  · exact .bind .advance fun _ => .pure _
  · exact .pure _

theorem built_inclusion : Built inclusion :=
  .bind built_nameMark fun _ => .bind (.expect _) fun _ => .bind .current fun _ =>
    .bind (.expect _) fun _ => .pure _

theorem built_registers : Built registers := by
  refine .bind (.aheadIs _) fun opens => ?_
  split
  · exact .bind .advance fun _ => .bind (built_list built_registerName) fun _ =>
      .bind (.expect _) fun _ => .bind (.expect _) fun _ =>
      .bind (built_list built_registerName) fun _ => .pure _
  · exact .pure _

theorem built_circuit : Built circuit :=
  .bind built_expectName fun _ => .bind built_registers fun _ => .bind (.expect _) fun _ =>
    .bind built_block fun _ => .pure _

theorem built_item : Built item := by
  refine .bind .current fun first => ?_
  split
  · exact .bind built_circuit fun _ => .bind .advance fun _ => .pure _
  · exact .bind built_inclusion fun _ => .bind .advance fun _ => .pure _
  · exact .fail _

theorem built_programName : Built programName := by
  refine .bind .current fun first => ?_
  split
  · exact .bind (.expect _) fun _ => .bind (.expect _) fun _ => .bind .current fun _ =>
      .bind (.expect _) fun _ => .bind .advance fun _ => .pure _
  · exact .pure _

theorem built_program : Built program :=
  .bind built_programName fun _ => .bind (.untilEnd consumes_item built_item) fun _ => .pure _

end Grammar
end CircuitText
