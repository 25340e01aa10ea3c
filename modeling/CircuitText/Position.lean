/-!
# Positions and spans

Lines and columns are counted from one, columns in characters.  Only a line feed starts a new line.
A span names its first and its last character, both included, so that the span of a single
character begins and ends at the same position.

* `Position.past` --- the position after a character;
* `Position.after` --- the position after a text;
* `Position.ofLast` --- the position of the last character of a text.
-/

namespace CircuitText

/-- A place in a source text. -/
structure Position where
  /-- The label of the source text, most often a file name. -/
  file : String
  /-- The line, counted from one. -/
  line : Nat
  /-- The column in characters, counted from one. -/
  column : Nat
  deriving DecidableEq, Repr

namespace Position

/-- Where a text starts. -/
def start (file : String) : Position := ⟨file, 1, 1⟩

/-- The position that follows a character standing at `p`. -/
def past (p : Position) (c : Char) : Position :=
  if c = '\n' then { p with line := p.line + 1, column := 1 }
  else { p with column := p.column + 1 }

/-- The position that follows a text beginning at `p`. -/
def after (p : Position) (text : List Char) : Position := text.foldl past p

/-- The position of the last character of a text beginning at `p`; that of an empty text is `p`. -/
def ofLast (p : Position) (text : List Char) : Position := p.after text.dropLast

/-- The text of a position: its label, line and column. -/
def render (p : Position) : String := p.file ++ " " ++ p.line.repr ++ ":" ++ p.column.repr

@[simp] theorem after_nil (p : Position) : p.after [] = p := rfl

@[simp] theorem after_cons (p : Position) (c : Char) (text : List Char) :
    p.after (c :: text) = (p.past c).after text := rfl

theorem after_append (p : Position) (first second : List Char) :
    p.after (first ++ second) = (p.after first).after second := by
  simp [after]

/-- Reading on stays in the same source text. -/
@[simp] theorem file_past (p : Position) (c : Char) : (p.past c).file = p.file := by
  unfold past
  split <;> rfl

@[simp] theorem file_after (p : Position) (text : List Char) : (p.after text).file = p.file := by
  induction text generalizing p with
  | nil => rfl
  | cons c text ih => rw [after_cons, ih, file_past]

end Position

/-- A stretch of a source text, given by its first and its last character. -/
structure Span where
  /-- Where the first character stands. -/
  first : Position
  /-- Where the last character stands. -/
  last : Position
  deriving DecidableEq, Repr

namespace Span

/-- The span of a single position. -/
def point (p : Position) : Span := ⟨p, p⟩

/-- The text of a span: the label of its first position, then both ends. -/
def render (s : Span) : String :=
  s.first.render ++ "-" ++ s.last.line.repr ++ ":" ++ s.last.column.repr

end Span

end CircuitText
