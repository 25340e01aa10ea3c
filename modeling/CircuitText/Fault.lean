import CircuitText.Delay
import CircuitText.Token.Basic

/-!
# Faults

A source text can be at fault in three ways: a character begins no token, a token stands where it
cannot stand, or a token of the right kind has a value that is refused.  A fault is a cause and the
span of the token to blame; the wording belongs to the cause.

* `Cause.category`, `Cause.message` --- the sort of a fault and its wording;
* `Fault.render` --- a fault in one line.
-/

namespace CircuitText

/-- How deep prefix operators, brackets and clock blocks may nest. -/
def nestingLimit : Nat := 128

/-- The sorts of fault. -/
inductive Category where
  /-- A character begins no token. -/
  | lexical
  /-- A token stands where it cannot stand. -/
  | structural
  /-- A token has a value that is refused. -/
  | semantic
  deriving DecidableEq, Repr

/-- What is wrong. -/
inductive Cause where
  /-- These characters begin no token. -/
  | illegal (text : String)
  /-- One kind of token was needed and another was found. -/
  | expected (wanted found : Kind)
  /-- A kind of token cannot stand at such a place. -/
  | unexpected (found : Kind) (place : String)
  /-- Something that is neither a circuit nor a reference stands outside all circuits. -/
  | strayAtTopLevel
  /-- The nesting limit is passed. -/
  | nestedTooDeep
  /-- A number other than `0` and `1` stands where a bit is needed. -/
  | notABit (number : String)
  /-- The number is no amount of time. -/
  | badAmount (number : String) (error : AmountError)
  /-- The delay that the number and the unit make is too long. -/
  | delayTooLong (number unit : String)
  /-- Another token stands where a unit of time is needed. -/
  | noTimeUnit (found : Kind)
  /-- The word is no unit of time. -/
  | unknownTimeUnit (word : String)
  /-- A value is refused for a reason given in words. -/
  | refused (reason : String)
  deriving DecidableEq, Repr

namespace Cause

/-- The sort of a fault. -/
def category : Cause → Category
  | .illegal _ => .lexical
  | .expected _ _ | .unexpected _ _ | .strayAtTopLevel => .structural
  | .nestedTooDeep | .notABit _ | .badAmount _ _ | .delayTooLong _ _ | .noTimeUnit _
  | .unknownTimeUnit _ | .refused _ => .semantic

/-- The wording of a fault. -/
def message : Cause → String
  | .illegal text => "illegal token found: `" ++ text ++ "`"
  | .expected wanted found => "expected " ++ wanted.render ++ ", got " ++ found.render
  | .unexpected found place => "unexpected token '" ++ found.render ++ "' " ++ place
  | .strayAtTopLevel =>
    "only circuits and include statements can be written in the top-level of a file"
  | .nestedTooDeep => "nested more than " ++ nestingLimit.repr ++ " levels deep"
  | .notABit number => "a bit literal must be 0 or 1, got " ++ number
  | .badAmount number .notWhole =>
    "clock delay must be a whole, non-negative number, got " ++ number
  | .badAmount number .malformed => "invalid clock delay: " ++ number
  | .badAmount number .tooLong => "clock delay " ++ number ++ " is too long"
  | .delayTooLong number unit => "clock delay " ++ number ++ " " ++ unit ++ " is too long"
  | .noTimeUnit found =>
    "expected a time unit (" ++ TimeUnit.writtenSymbols ++ "), got " ++ found.render
  | .unknownTimeUnit word =>
    "unknown time unit `" ++ word ++ "`, expected one of " ++ TimeUnit.writtenSymbols
  | .refused reason => reason

end Cause

/-- Something wrong with a source text, and where. -/
structure Fault where
  cause : Cause
  span : Span
  deriving DecidableEq, Repr

namespace Fault

/-- A character that begins no token was read as `t`. -/
def illegal (t : Token) : Fault := ⟨.illegal t.literal, t.span⟩

/-- A token of kind `wanted` was needed and `found` was found. -/
def expected (wanted : Kind) (found : Token) : Fault := ⟨.expected wanted found.kind, found.span⟩

/-- `found` cannot stand at such a place. -/
def unexpected (found : Token) (place : String) : Fault :=
  ⟨.unexpected found.kind place, found.span⟩

/-- A fault in one line. -/
def render (f : Fault) : String :=
  "\x7b* Parse Error @ [" ++ f.span.render ++ "] *\x7d " ++ f.cause.message

end Fault

end CircuitText
