import CircuitText.Grammar.Statement

/-!
# Reading programs

A program may begin with its name.  Then circuits and references to other texts follow in any
order; nothing else may stand outside a circuit.

Reading can be asked for again after it has ended.  It goes on at the token where it stopped, with
the faults that were noted before, and the first fault that was ever noted is the answer: a program
is given only if no fault was noted at all.

* `Item` --- a circuit or a reference;
* `program` --- reads a program;
* `State.parse` --- reads a program, or gives the first fault;
* `Program.parse` --- the program that a text says.
-/

namespace CircuitText
namespace Grammar

/-- What may stand outside a circuit. -/
inductive Item where
  | inclusion (i : Inclusion)
  | circuit (c : Circuit)
  deriving DecidableEq

namespace Item

/-- The reference that an item is, if it is one. -/
def inclusion? : Item → Option Inclusion
  | .inclusion i => some i
  | .circuit _ => none

/-- The circuit that an item is, if it is one. -/
def circuit? : Item → Option Circuit
  | .inclusion _ => none
  | .circuit c => some c

end Item

/-- Reads the mark of a reference by name, and tells whether it was there. -/
def nameMark : Production Bool := do
  if ← aheadIs .name then
    advance
    return true
  else return false

/-- Reads a reference to another text; its keyword is the current token. -/
def inclusion : Production Inclusion := do
  let byName ← nameMark
  expect .string
  let value ← current
  expect .semicolon
  return ⟨byName, value.literal⟩

/-- Reads the input and output registers of a circuit, if it has any. -/
def registers : Production (List String × List String) := do
  if ← aheadIs .leftParen then
    advance
    let inputs ← list registerName
    expect .arrow
    expect .leftParen
    return (inputs, ← list registerName)
  else return ([], [])

/-- Reads a circuit; its keyword is the current token. -/
def circuit : Production Circuit := do
  let name ← expectName
  let (inputs, outputs) ← registers
  expect .leftBrace
  return ⟨name, inputs, outputs, ← block⟩

/-- Reads a circuit or a reference, and moves on to the token after it. -/
def item : Production Item := do
  let first ← current
  match first.kind with
  | .circuit => do
    let c ← circuit
    advance
    return .circuit c
  | .inclusion => do
    let i ← inclusion
    advance
    return .inclusion i
  | _ => fail ⟨.strayAtTopLevel, first.span⟩

theorem consumes_inclusion : Consumes inclusion :=
  consumes_bind_right _ fun _ => consumes_bind_left (consumes_expect (by decide)) _

theorem consumes_circuit : Consumes circuit := consumes_bind_left consumes_expectName _

/-- An item takes a token even apart from the one behind it. -/
theorem consumes_item : Consumes item := by
  refine consumes_bind_right _ fun first => ?_
  split
  · exact consumes_bind_left consumes_circuit _
  · exact consumes_bind_left consumes_inclusion _
  · exact consumes_fail _

/-- Reads the name of a program and moves on to the token after it; a program that does not begin
with its name has the default name. -/
def programName : Production String := do
  if (← current).kind = .name then
    expect .colon
    expect .string
    let name ← current
    expect .semicolon
    advance
    return name.literal
  else return Program.defaultName

/-- Reads a program. -/
def program : Production Program := do
  let name ← programName
  let items ← untilEnd item consumes_item
  return ⟨name, items.filterMap (·.inclusion?), items.filterMap (·.circuit?)⟩

namespace State

/-- Reads a program. The answer is the first fault noted so far, if there is one. -/
def parse (s : State) : Except Fault Program × State :=
  let o := program s
  match o.after.faults with
  | [] => (o.result, o.after)
  | f :: _ => (.error f, o.after)

end State

end Grammar

namespace Program

/-- The program that a text says, or the first fault in it. -/
def parse (text : List Char) (file : String) : Except Fault Program :=
  (Grammar.State.start (.ofLexer (.ofText text file))).parse.1

/-- Whether two texts say the same, or are at fault in the same way at the same place. -/
def sameReading : Except Fault Program → Except Fault Program → Bool
  | .ok p, .ok q => p == q
  | .error f, .error g => f == g
  | .ok _, .error _ => false
  | .error _, .ok _ => false

theorem sameReading_iff (a b : Except Fault Program) : sameReading a b = true ↔ a = b := by
  cases a <;> cases b <;> simp [sameReading]

end Program

end CircuitText
