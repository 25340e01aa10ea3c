import CircuitText.Session.Sink
import CircuitText.Text.Blank
import CircuitText.Token.Lexer

/-!
# Sessions

In a session every line that is typed is answered with its tokens.  Each line is read by itself: a
string or a comment does not go on in the next one, and positions count from the start of the line.
A prompt is written before each line is read, so also before the end of the input is found.  The
session ends there, at a line that says `quit`, or at a line that is not valid UTF-8.

* `lines` --- the input, cut after every line feed;
* `Session.echo` --- writes the tokens of a line;
* `Session.answer` --- answers a line and tells whether the session goes on;
* `Session.run` --- a whole session.
-/

namespace CircuitText

/-- Cuts bytes into lines, each with its line feed; the last line may lack one. -/
def lines : List UInt8 → List (List UInt8)
  | [] => []
  | b :: bytes =>
    if b = 10 then [b] :: lines bytes
    else
      match lines bytes with
      | [] => [[b]]
      | line :: more => (b :: line) :: more

/-- No byte is lost or moved by cutting. -/
theorem flatten_lines (bytes : List UInt8) : (lines bytes).flatten = bytes := by
  induction bytes with
  | nil => rfl
  | cons b bytes ih =>
    unfold lines
    split
    · simp [ih]
    · split
      · rename_i h
        rw [h] at ih
        simp [← ih]
      · rename_i h
        rw [h] at ih
        simp [← ih]

namespace Session

/-- What is written before a line is read. -/
def prompt : String := "booleang> "

/-- The label of what is typed. -/
def label : String := "repl"

/-- The line that ends a session, and the answer to it. -/
def farewell : String := "quit"

/-- Writes each token of a line in a line of its own. -/
def echo (line : String) : Writing Unit :=
  (Lexer.tokenize line.toList label).forM fun t => Writing.text (t.render ++ "\n")

/-- Answers a line; the result tells whether the session goes on. -/
def answer (line : List UInt8) : Writing Bool :=
  match Text.decode? line with
  | none => throw .notUtf8
  | some text => do
    if Text.trimBlanks text.toList = farewell.toList then
      Writing.text (farewell ++ "\n")
      return false
    else
      echo text
      return true

/-- Answers line after line, each after a prompt. -/
def answerAll : List (List UInt8) → Writing Unit
  | [] => Writing.text prompt
  | line :: more => do
    Writing.text prompt
    if ← answer line then answerAll more

/-- A whole session over the bytes that are typed. -/
def run (input : List UInt8) : Writing Unit := answerAll (lines input)

end Session

end CircuitText
