import CircuitText.Delay

/-!
# Programs

A program is a list of circuits and a list of references to other source texts.  A circuit is a
named block of statements between input and output registers.  A statement groups registers under
one name, calls a circuit, pipes expressions into registers, or repeats a block at a fixed delay.
Expressions are built from bits and registers by operators; a group stands for all its registers.

Operators are kept as they are spelled.  Nothing here asks whether the names mean anything: whether
a circuit that is called exists, or how many registers it has, is left to later stages.
-/

namespace CircuitText

/-- A register, or all registers of a group. -/
inductive Parameter where
  | register (name : String)
  | group (name : String)
  deriving DecidableEq, Repr

/-- An expression for one or more bits. -/
inductive Expression where
  | bit (value : Bool)
  | register (name : String)
  /-- All registers of a group. -/
  | group (name : String)
  /-- An operator before its operand. -/
  | unary (operator : String) (operand : Expression)
  /-- An operator between its operands. -/
  | binary (left : Expression) (operator : String) (right : Expression)
  deriving DecidableEq, Repr

/-- One step of a circuit. -/
inductive Statement where
  /-- Groups registers under one name. -/
  | group (name : String) (members : List Parameter)
  /-- Calls a circuit. -/
  | call (circuit : String) (inputs : List Expression) (outputs : List Parameter)
  /-- Pipes expressions into registers. -/
  | pipe (inputs : List Expression) (outputs : List Parameter)
  /-- Repeats a block, counting the rounds in a group of registers if one is named. -/
  | clock (delay : Delay) (counter : Option String) (body : List Statement)

namespace Statement

mutual

/-- Whether two statements are the same. -/
def decEq : (a b : Statement) → Decidable (a = b)
  | .group n ps, .group n' ps' =>
    decidable_of_iff (n = n' ∧ ps = ps') (by rw [Statement.group.injEq])
  | .call c is os, .call c' is' os' =>
    decidable_of_iff (c = c' ∧ is = is' ∧ os = os') (by rw [Statement.call.injEq])
  | .pipe is os, .pipe is' os' =>
    decidable_of_iff (is = is' ∧ os = os') (by rw [Statement.pipe.injEq])
  | .clock d c b, .clock d' c' b' =>
    have := decEqBody b b'
    decidable_of_iff (d = d' ∧ c = c' ∧ b = b') (by rw [Statement.clock.injEq])
  | .group .., .call .. | .group .., .pipe .. | .group .., .clock ..
  | .call .., .group .. | .call .., .pipe .. | .call .., .clock ..
  | .pipe .., .group .. | .pipe .., .call .. | .pipe .., .clock ..
  | .clock .., .group .. | .clock .., .call .. | .clock .., .pipe .. => isFalse nofun

/-- Whether two blocks are the same. -/
def decEqBody : (as bs : List Statement) → Decidable (as = bs)
  | [], [] => isTrue rfl
  | a :: as, b :: bs =>
    have := decEq a b
    have := decEqBody as bs
    decidable_of_iff (a = b ∧ as = bs) (by rw [List.cons.injEq])
  | [], _ :: _ | _ :: _, [] => isFalse nofun

end

instance : DecidableEq Statement := decEq

end Statement

/-- A named block of statements between input and output registers. -/
structure Circuit where
  name : String
  inputs : List String
  outputs : List String
  body : List Statement
  deriving DecidableEq

/-- A reference to another source text. -/
structure Inclusion where
  /-- Whether the text is looked up by its program name, and not by its path. -/
  byName : Bool
  value : String
  deriving DecidableEq, Repr

/-- What a source text says. -/
structure Program where
  name : String
  inclusions : List Inclusion
  circuits : List Circuit
  deriving DecidableEq

namespace Program

/-- The name of a program that gives itself none. -/
def defaultName : String := "unnamed"

/-- The program without a name, circuits or references. -/
def empty : Program := ⟨defaultName, [], []⟩

/-- The first circuit of a given name. -/
def circuit? (p : Program) (name : String) : Option Circuit := p.circuits.find? (·.name == name)

/-- Where the first circuit of a given name stands among the circuits. -/
def circuitIndex? (p : Program) (name : String) : Option Nat :=
  p.circuits.findIdx? (·.name == name)

end Program

end CircuitText
