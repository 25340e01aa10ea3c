import CircuitText.Program.Basic
import CircuitText.Text.Quoted

/-!
# How programs are shown

Every part of a program has a compact text for people to look at.  Infix operators are always in
brackets, so that no order of operations has to be known; a prefix operator stands right before its
operand.  The references of a program are quoted, since they may hold anything; names are shown as
they are.
-/

namespace CircuitText

namespace Parameter

/-- How a parameter is shown. -/
def render : Parameter → String
  | .register name => name
  | .group name => "%" ++ name

end Parameter

namespace Expression

/-- How an expression is shown. -/
def render : Expression → String
  | .bit false => "<bit 0>"
  | .bit true => "<bit 1>"
  | .register name => name
  | .group name => "%" ++ name
  | .unary operator operand => operator ++ operand.render
  | .binary left operator right =>
    "(" ++ left.render ++ " " ++ operator ++ " " ++ right.render ++ ")"

end Expression

/-- A list between round brackets. -/
def bracketed (items : List String) : String := "(" ++ Text.joined ", " items ++ ")"

namespace Statement

mutual

/-- How a statement is shown. -/
def render : Statement → String
  | .group name members => "<macro " ++ name ++ " " ++ bracketed (members.map (·.render)) ++ ">"
  | .call circuit inputs outputs =>
    "<call " ++ circuit ++ " " ++ bracketed (inputs.map (·.render)) ++ " -> "
      ++ bracketed (outputs.map (·.render)) ++ ">"
  | .pipe inputs outputs =>
    "<pipe " ++ bracketed (inputs.map (·.render)) ++ " -> "
      ++ bracketed (outputs.map (·.render)) ++ ">"
  | .clock delay counter body =>
    "<clock " ++ delay.render ++ " (" ++ counter.getD "" ++ ") ["
      ++ Text.joined "; " (renderBody body) ++ "]>"

/-- How each statement of a block is shown. -/
def renderBody : List Statement → List String
  | [] => []
  | s :: body => s.render :: renderBody body

end

theorem renderBody_eq_map (body : List Statement) : renderBody body = body.map render := by
  induction body with
  | nil => rfl
  | cons s body ih => rw [renderBody, ih, List.map_cons]

end Statement

namespace Circuit

/-- How a circuit is shown. -/
def render (c : Circuit) : String :=
  c.name ++ " " ++ bracketed c.inputs ++ " -> " ++ bracketed c.outputs ++ " \x7b"
    ++ Text.joined "; " (c.body.map (·.render)) ++ "\x7d"

end Circuit

namespace Inclusion

/-- How a reference is shown. -/
def render (i : Inclusion) : String :=
  (if i.byName then "name:" else "") ++ String.ofList (Text.quoted i.value.toList)

end Inclusion

namespace Program

/-- How a program is shown. -/
def render (p : Program) : String :=
  "\x7b" ++ p.name ++ ", includes [" ++ Text.joined " " (p.inclusions.map (·.render)) ++ "]\n"
    ++ Text.joined "\n" (p.circuits.map (·.render)) ++ "\x7d"

end Program

end CircuitText
