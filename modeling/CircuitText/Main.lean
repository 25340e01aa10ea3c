import CircuitText.Command

/-!
# The program

The outer layer: it reads arguments, files and what is typed, asks `Command` what to do about them,
and writes the answer.  A session is held line by line, so that each answer is seen before the next
line is typed.
-/

namespace CircuitText
namespace Command

/-- How the command is used. -/
def usage : String := "Usage: bl [-t|--tokens] [-V|--version] [SOURCE_FILE]\n"

/-- Why the system could not read a file.  A code may come with its sign turned round. -/
def readErrorOf (e : IO.Error) : ReadError :=
  match e with
  | .noFileOrDirectory _ _ _ => .notFound
  | .inappropriateType _ code _ =>
    if code = 20 || code = -20 then .notADirectory
    else if code = 21 || code = -21 then .isADirectory
    else .other (toString e)
  | .permissionDenied _ _ _ => .other "Permission denied (os error 13)"
  | e => .other (toString e)

/-- Reads the text of a source file. -/
def readSource (path : String) : IO (Except Failure String) := do
  try
    let bytes ← IO.FS.readBinFile path
    match textOfFile bytes.data.toList with
    | .ok text => return .ok text
    | .error e => return .error (.unreadable path e)
  catch e => return .error (.unreadable path (readErrorOf e))

/-- Reads a line with its line feed, byte by byte; at the end of the input it is empty. -/
partial def readLine (input : IO.FS.Stream) : IO (List UInt8) := do
  let bytes ← input.read 1
  match bytes.data.toList with
  | [] => return []
  | b :: _ => if b = 10 then return [b] else return b :: (← readLine input)

/-- Complains about a failure and gives the exit code. -/
def complain (f : Failure) : IO UInt32 := do
  (← IO.getStderr).putStr (f.message ++ "\n")
  return 1

/-- Holds a session and gives the exit code. -/
partial def converse (input output : IO.FS.Stream) : IO UInt32 := do
  output.putStr Session.prompt
  output.flush
  let line ← readLine input
  if line.isEmpty then return 0
  else
    match Session.answer line (.empty none) with
    | .ok goesOn sink =>
      output.write sink.written.toByteArray
      output.flush
      if goesOn then converse input output else return 0
    | .error e sink =>
      output.write sink.written.toByteArray
      output.flush
      complain (.stream e)

end Command
end CircuitText

open CircuitText in
/-- Runs the command. -/
def main (arguments : List String) : IO UInt32 := do
  match Command.plan arguments with
  | .refuse =>
    (← IO.getStderr).putStr Command.usage
    return 2
  | .version =>
    (← IO.getStdout).putStr (Command.version ++ "\n")
    return 0
  | .session => Command.converse (← IO.getStdin) (← IO.getStdout)
  | .file path tokens =>
    match (← Command.readSource path) >>= Command.shown path tokens with
    | .error f => Command.complain f
    | .ok result =>
      (← IO.getStdout).putStr result
      return 0
