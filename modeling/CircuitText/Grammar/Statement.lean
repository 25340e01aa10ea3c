import CircuitText.Grammar.Expression

/-!
# Reading statements

A statement is known by its first token, and at most by one more: a name is a call when a bracket
follows and an operand otherwise.  A pipe that begins with a bracket is the exception.  What is
inside may be a list of inputs or a single operand in brackets, and only an infix operator behind
the closing bracket tells; a list with a comma in it is no operand even then.

Lists are in round brackets, with commas between the items and, if one likes, behind the last.

* `list` --- reads a list in brackets;
* `parameter`, `delay` --- read the parts of statements;
* `block` --- reads statements up to the closing brace.
-/

namespace CircuitText
namespace Grammar

variable {α : Type}

/-! ## Lists and parameters -/

/-- What may follow a comma: an item, or the end of the list. -/
def itemAfterComma (item : Production α) : Production (Option α) := do
  if ← aheadIs .rightParen then return none
  else
    advance
    return some (← item)

/-- Reads a list in brackets and tells whether it has a comma; the opening bracket is the current
token. -/
def listWithComma (item : Production α) : Production (List α × Bool) := do
  if ← aheadIs .rightParen then
    advance
    return ([], false)
  else
    advance
    let first ← item
    let comma ← aheadIs .comma
    let more ← whileAhead (· == .comma) rfl (itemAfterComma item)
    expect .rightParen
    return (first :: more.filterMap id, comma)

/-- Reads a list in brackets; the opening bracket is the current token. -/
def list (item : Production α) : Production (List α) := do
  return (← listWithComma item).1

/-- Reads a register name. -/
def registerName : Production String := do
  let name ← current
  if name.kind = .ident then return name.literal
  else fail (.expected .ident name)

/-- Reads a parameter. -/
def parameter : Production Parameter := do
  let first ← current
  match first.kind with
  | .percent => return .group (← expectName)
  | .ident => return .register first.literal
  | _ => fail (.unexpected first "where a parameter was expected")

/-! ## Delays -/

/-- Reads a delay; its number is the current token. -/
def delay : Production Delay := do
  let number ← current
  match Delay.amount number.literal.toList with
  | .error e => fail ⟨.badAmount number.literal e, number.span⟩
  | .ok amount =>
    let word ← ahead
    if word.kind ≠ .ident then fail ⟨.noTimeUnit word.kind, word.span⟩
    else
      advance
      match TimeUnit.ofSymbol? word.literal with
      | none => fail ⟨.unknownTimeUnit word.literal, word.span⟩
      | some u =>
        match Delay.of? amount u with
        | none => fail ⟨.delayTooLong number.literal word.literal, number.span⟩
        | some d => return d

/-! ## Statements -/

/-- Reads the outputs of a pipe, a list or a single parameter; the arrow is the current token. -/
def pipeOutputs : Production (List Parameter) := do
  if ← aheadIs .leftParen then
    advance
    list parameter
  else
    advance
    return [← parameter]

/-- Reads the arrow and the outputs behind the inputs of a pipe. -/
def pipeFrom (inputs : List Expression) : Production Statement := do
  expect .arrow
  let outputs ← pipeOutputs
  expect .semicolon
  return .pipe inputs outputs

/-- Reads a pipe with a single input that does not begin with a bracket. -/
def pipe : Production Statement := do
  pipeFrom [← expression]

/-- Reads a statement that begins with the name of a group: its definition if a bracket follows
the name, a pipe otherwise. -/
def groupOrPipe : Production Statement := do
  let name ← expectName
  if ← aheadIs .leftParen then
    advance
    let members ← list parameter
    expect .semicolon
    return .group name members
  else pipeFrom [← expressionTail (.group name)]

/-- Reads the outputs of a call, if it has any. -/
def callOutputs : Production (List Parameter) := do
  if ← aheadIs .arrow then
    advance
    expect .leftParen
    list parameter
  else return []

/-- Reads a call. -/
def call : Production Statement := do
  let circuit ← current
  advance
  let inputs ← list expression
  let outputs ← callOutputs
  expect .semicolon
  return .call circuit.literal inputs outputs

/-- Reads a pipe that begins with a bracket. -/
def pipeFromBracket : Production Statement := do
  let inputs ← listWithComma expression
  match inputs with
  | ([first], false) =>
    if ← aheadIs .infixOp then pipeFrom [← expressionTail first] else pipeFrom [first]
  | (inputs, _) => pipeFrom inputs

/-- Reads the group that counts the rounds of a clock, if there is one. -/
def counter : Production (Option String) := do
  if ← aheadIs .percent then
    advance
    return some (← expectName)
  else return none

/-- Reads a clock; `inner` reads its body. -/
def clockOver (inner : Production (List Statement)) : Production Statement := do
  expect .number
  let period ← delay
  let rounds ← counter
  expect .leftBrace
  return .clock period rounds (← nested inner)

/-- Reads a statement; `inner` reads the bodies of clocks. -/
def statementOver (inner : Production (List Statement)) : Production Statement := do
  let first ← current
  match first.kind with
  | .percent => groupOrPipe
  | .clock => clockOver inner
  | .ident => if ← aheadIs .leftParen then call else pipe
  | .number | .prefixOp => pipe
  | .leftParen => pipeFromBracket
  | _ => fail (.unexpected first "at the start of a statement")

/-- Whether a token may begin another statement of a block, for all one can tell before reading
it. -/
def goesOn (k : Kind) : Bool := k != .rightBrace && k != .endOfText

/-- Reads statements up to the closing brace; the opening brace is the current token, and `inner`
reads the bodies of clocks. -/
def blockOver (inner : Production (List Statement)) : Production (List Statement) := do
  let statements ← whileAhead goesOn rfl (statementOver inner)
  expect .rightBrace
  return statements

/-- Reads a block whose clocks may open so many levels. -/
def blockWithin : (levels : Nat) → (s : State) → Outcome s (List Statement)
  | 0, s => blockOver tooDeep s
  | levels + 1, s => blockOver (blockWithin levels) s

/-- Reads statements up to the closing brace; the opening brace is the current token. -/
def block : Production (List Statement) := fun s => blockWithin s.levels s

end Grammar
end CircuitText
