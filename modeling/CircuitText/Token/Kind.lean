/-!
# Kinds of tokens

A token is of one of twenty kinds.  Kinds that always look the same are shown by that look, the
others by a word.  Four words of the language are kept for its keywords and cannot be names.

* `Kind.render` --- how a kind is shown in messages;
* `Kind.keywords`, `Kind.ofKeyword?` --- the keywords and their kinds.
-/

namespace CircuitText

/-- What a token is. -/
inductive Kind where
  /-- The end of the text. -/
  | endOfText
  /-- A character that begins no token. -/
  | illegal
  /-- A number such as `5`, `-2` or `4.33`. -/
  | number
  /-- A text between quotes. -/
  | string
  /-- The name of a register, a circuit or a group of registers. -/
  | ident
  /-- An operator written before its operand. -/
  | prefixOp
  /-- An operator written between its operands. -/
  | infixOp
  | semicolon
  | leftParen
  | rightParen
  | leftBrace
  | rightBrace
  | comma
  /-- The sign before the name of a group of registers. -/
  | percent
  | arrow
  | colon
  /-- The keyword that begins a repeated block. -/
  | clock
  /-- The keyword that names a program. -/
  | name
  /-- The keyword that begins a circuit. -/
  | circuit
  /-- The keyword that refers to another source text. -/
  | inclusion
  deriving DecidableEq, Repr

namespace Kind

/-- Every kind, in the order of their definition. -/
def all : List Kind :=
  [.endOfText, .illegal, .number, .string, .ident, .prefixOp, .infixOp, .semicolon, .leftParen,
    .rightParen, .leftBrace, .rightBrace, .comma, .percent, .arrow, .colon, .clock, .name,
    .circuit, .inclusion]

/-- How a kind is shown. -/
def render : Kind → String
  | .endOfText => "EOF"
  | .illegal => "illegal"
  | .number => "number"
  | .string => "string"
  | .ident => "identifier"
  | .prefixOp => "prefix"
  | .infixOp => "infix"
  | .semicolon => ";"
  | .leftParen => "("
  | .rightParen => ")"
  | .leftBrace => "\x7b"
  | .rightBrace => "\x7d"
  | .comma => ","
  | .percent => "%"
  | .arrow => "->"
  | .colon => ":"
  | .clock => "clock"
  | .name => "name"
  | .circuit => "circuit"
  | .inclusion => "include"

/-- The kinds that are keywords. -/
def keywords : List Kind := [.clock, .name, .circuit, .inclusion]

/-- Whether a kind is a keyword's. -/
def isKeyword (k : Kind) : Bool := keywords.contains k

/-- The kind of a keyword, and nothing for any other word. -/
def ofKeyword? (word : String) : Option Kind := keywords.find? fun k => k.render == word

theorem mem_all (k : Kind) : k ∈ all := by cases k <;> decide

/-- A keyword is shown as it is written. -/
theorem render_of_ofKeyword? {word : String} {k : Kind} (h : ofKeyword? word = some k) :
    k.render = word := by
  simpa using List.find?_some h

/-- Each keyword is read back from its look. -/
theorem ofKeyword?_render {k : Kind} (h : k ∈ keywords) : ofKeyword? k.render = some k := by
  revert k
  decide

end Kind

end CircuitText
