import CircuitText.Position
import CircuitText.Token.Kind

/-!
# Tokens

A token carries its kind, its literal and the span of the characters it was read from.  The literal
of a string is what the string stands for; every other token's literal is its own spelling.
-/

namespace CircuitText

/-- A word of the language, with its place. -/
structure Token where
  kind : Kind
  /-- The characters the token stands for. -/
  literal : String
  /-- The characters the token was read from, quotes included. -/
  span : Span
  deriving DecidableEq, Repr

namespace Token

/-- The token that marks the end of a text. -/
def endOfText (p : Position) : Token := ⟨.endOfText, "", .point p⟩

/-- The text of a token: its span, its kind and its literal. -/
def render (t : Token) : String :=
  "[" ++ t.span.render ++ "] " ++ t.kind.render ++ " `" ++ t.literal ++ "`"

end Token

end CircuitText
