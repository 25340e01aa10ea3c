import CircuitText.Fault
import CircuitText.Files.Tree
import CircuitText.Session.Sink

/-!
# Failures

Whatever is done with a source text can fail in three ways: the text is at fault, its file cannot be
read, or a stream breaks while it is being read or written.
-/

namespace CircuitText

/-- Why something could not be done. -/
inductive Failure where
  /-- A source text is at fault. -/
  | fault (f : Fault)
  /-- A source file cannot be read. -/
  | unreadable (path : String) (e : ReadError)
  /-- A stream broke. -/
  | stream (e : StreamError)
  deriving DecidableEq, Repr

namespace Failure

/-- The wording of a failure. -/
def message : Failure → String
  | .fault f => f.render
  | .unreadable path e => "Failed to read source file '" ++ path ++ "': " ++ e.message
  | .stream e => "I/O error: " ++ e.message

end Failure

end CircuitText
