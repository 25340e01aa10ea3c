import CircuitText.Grammar.Production
import CircuitText.Program.Basic

/-!
# Reading expressions

There is no table of precedences.  After an operand, an infix operator takes the whole expression
that follows as its right operand, so `a & b | c` is read as `a & (b | c)`, and a prefix operator
takes the whole expression that follows as its operand.  A chain of infix operators is read in a
loop and put together from the right, so its length does not count as nesting.

Prefix operators and brackets do.  What is inside them is one level deeper, and `expressionWithin`
reads expressions with so many levels left to open; it goes down by one for each level, which is
why it comes to an end.  `expression` starts with the levels that the state has left.  A production
that is `nested` asks the state itself whether it may open a level, so the two counts always agree.

* `chain` --- the expression of an operand and the operators and operands behind it;
* `assemble`, `assemble_eq_chain` --- the same put together from the back, as the loop has it;
* `expression` --- reads an expression.
-/

namespace CircuitText
namespace Grammar

/-- The expression that `left` makes with the operators and operands behind it, each operator
taking all that follows as its right operand. -/
def chain (left : Expression) : List (String × Expression) → Expression
  | [] => left
  | (operator, operand) :: tail => .binary left operator (chain operand tail)

@[simp] theorem chain_nil (left : Expression) : chain left [] = left := rfl

@[simp] theorem chain_cons (left operand : Expression) (operator : String)
    (tail : List (String × Expression)) :
    chain left ((operator, operand) :: tail) = .binary left operator (chain operand tail) := rfl

/-- The end of a chain can be put together first. -/
theorem chain_append (left operand : Expression) (operator : String)
    (front tail : List (String × Expression)) :
    chain left (front ++ (operator, operand) :: tail) =
      chain left (front ++ [(operator, chain operand tail)]) := by
  induction front generalizing left with
  | nil => rfl
  | cons first front ih => rw [List.cons_append, List.cons_append, chain, chain, ih]

/-- Puts a chain together from the back.  `right` is what stands behind `operator` and is put
together already; `pending` are the operators and operands between `left` and `operator`, the last
one first.  Each operand goes in front of the operator behind it, and the operator in front of it is
handed on. -/
def foldBack (left : Expression) (operator : String) (right : Expression) :
    List (String × Expression) → Expression
  | [] => .binary left operator right
  | (previous, operand) :: pending =>
    foldBack left previous (.binary operand operator right) pending

/-- The expression that `left` makes with the operators and operands behind it, put together from
the back. -/
def assemble (left : Expression) (tail : List (String × Expression)) : Expression :=
  match tail.reverse with
  | [] => left
  | (operator, right) :: pending => foldBack left operator right pending

theorem foldBack_eq_chain (left : Expression) (operator : String) (right : Expression)
    (pending : List (String × Expression)) :
    foldBack left operator right pending =
      chain left (pending.reverse ++ [(operator, right)]) := by
  induction pending generalizing operator right with
  | nil => rfl
  | cons last pending ih =>
    obtain ⟨previous, operand⟩ := last
    rw [foldBack, ih, List.reverse_cons, List.append_assoc, List.singleton_append,
      chain_append left operand, chain_cons, chain_nil]

/-- Putting a chain together from the back gives each operator all that follows. -/
theorem assemble_eq_chain (left : Expression) (tail : List (String × Expression)) :
    assemble left tail = chain left tail := by
  unfold assemble
  split
  · rename_i h
    rw [List.reverse_eq_nil_iff.mp h, chain]
  · rename_i operator right pending h
    rw [foldBack_eq_chain, ← List.reverse_cons, ← h, List.reverse_reverse]

/-- Reads a bit. -/
def bit : Production Expression := do
  let number ← current
  if number.literal = "0" then return .bit false
  else if number.literal = "1" then return .bit true
  else fail ⟨.notABit number.literal, number.span⟩

/-- Reads an operand; `inner` reads the expressions inside it. -/
def operandOver (inner : Production Expression) : Production Expression := do
  let first ← current
  match first.kind with
  | .ident => return .register first.literal
  | .number => bit
  | .leftParen => nested do
    advance
    let e ← inner
    expect .rightParen
    return e
  | .prefixOp => nested do
    advance
    return .unary first.literal (← inner)
  | .percent => return .group (← expectName)
  | _ => fail (.unexpected first "in expression")

/-- Reads an infix operator and the operand after it; the operator is the current token. -/
def operationOver (inner : Production Expression) : Production (String × Expression) := do
  let operator ← current
  advance
  return (operator.literal, ← operandOver inner)

/-- Reads the infix operators behind an operand, each with the operand after it. -/
def tailOver (inner : Production Expression) (left : Expression) : Production Expression := do
  return assemble left (← whileAhead (· == .infixOp) rfl (operationOver inner))

/-- Reads an expression; `inner` reads the expressions inside its operands. -/
def expressionOver (inner : Production Expression) : Production Expression := do
  tailOver inner (← operandOver inner)

/-- Reads an expression that may open so many levels. -/
def expressionWithin : (levels : Nat) → (s : State) → Outcome s Expression
  | 0, s => expressionOver tooDeep s
  | levels + 1, s => expressionOver (expressionWithin levels) s

namespace State

/-- How many levels may still be opened. -/
def levels (s : State) : Nat := nestingLimit - s.depth

end State

/-- Reads an expression. -/
def expression : Production Expression := fun s => expressionWithin s.levels s

/-- Reads the infix operators behind an operand that has been read already. -/
def expressionTail (left : Expression) : Production Expression := tailOver expression left

end Grammar
end CircuitText
