import CircuitText.Failure
import CircuitText.Grammar.Program
import CircuitText.Program.Render
import CircuitText.Session.Basic

/-!
# The command line

The command shows what a source file says, or its tokens if asked to; without a file it starts a
session.  Options and the file may come in any order.  Arguments are taken from the left, and the
first one that settles the matter does: the version is shown as soon as it is asked for, and a
mistake is refused where it is met, whatever comes behind.

* `Command.plan` --- what the arguments ask for;
* `Command.shown` --- what is written for a source text;
* `Command.run` --- what the command writes, and its exit code.
-/

namespace CircuitText
namespace Command

/-! ## Arguments -/

/-- What the arguments ask for. -/
inductive Plan where
  /-- The arguments are refused. -/
  | refuse
  /-- To show the version. -/
  | version
  /-- To hold a session. -/
  | session
  /-- To show the program in a file, or its tokens. -/
  | file (path : String) (tokens : Bool)
  deriving DecidableEq, Repr

/-- What the arguments taken so far ask for. -/
structure Request where
  /-- Whether tokens are to be shown. -/
  tokens : Bool
  /-- The source file. -/
  path : Option String
  deriving DecidableEq, Repr

namespace Request

/-- What no arguments ask for. -/
def empty : Request := ⟨false, none⟩

/-- What is asked for when no more arguments come. -/
def plan (r : Request) : Plan :=
  match r.path with
  | none => .session
  | some path => .file path r.tokens

/-- Asks for tokens, which can be done only once. -/
def askTokens (r : Request) : Except Plan Request :=
  if r.tokens then .error .refuse else .ok { r with tokens := true }

/-- Names the source file, which can be done only once, and not by the empty path. -/
def setPath (r : Request) (path : String) : Except Plan Request :=
  if path = "" || r.path.isSome then .error .refuse else .ok { r with path := some path }

end Request

/-- Takes options of one letter each, written together. -/
def takeLetters (r : Request) : List Char → Except Plan Request
  | [] => .ok r
  | 't' :: more => do takeLetters (← r.askTokens) more
  | 'V' :: _ => .error .version
  | _ :: _ => .error .refuse

/-- Takes an argument that may be an option.  A dash by itself is a path. -/
def takeArgument (r : Request) (argument : String) : Except Plan Request :=
  if argument = "--tokens" then r.askTokens
  else if argument = "--version" then .error .version
  else
    match argument.toList with
    | '-' :: '-' :: _ => .error .refuse
    | '-' :: c :: more => takeLetters r (c :: more)
    | _ => r.setPath argument

/-- Takes all arguments; those behind `--` are paths. -/
def takeAll (optionsEnded : Bool) (r : Request) : List String → Except Plan Request
  | [] => .ok r
  | argument :: more =>
    if optionsEnded then do takeAll true (← r.setPath argument) more
    else if argument = "--" then takeAll true r more
    else do takeAll false (← takeArgument r argument) more

/-- What the arguments ask for. -/
def plan (arguments : List String) : Plan :=
  match takeAll false .empty arguments with
  | .ok r => r.plan
  | .error p => p

/-! ## Results -/

/-- The name of the program and its version. -/
def version : String := "booleang_core 0.1.0"

/-- The program that the text of the source file at `path` says. -/
def programOf (path text : String) : Except Failure Program :=
  match Program.parse text.toList (pathLabel path) with
  | .error f => .error (.fault f)
  | .ok p => .ok p

/-- What is written for the text of the source file at `path`: its program, or its tokens. -/
def shown (path : String) (tokens : Bool) (text : String) : Except Failure String :=
  if tokens then
    .ok (String.join ((Lexer.tokenize text.toList (pathLabel path)).map fun t => t.render ++ "\n"))
  else do
    return (← programOf path text).render ++ "\n"

/-- What the command leaves behind. -/
structure Report where
  /-- The exit code. -/
  code : Nat
  /-- What was written as a result. -/
  output : List UInt8
  /-- What was written about a failure; nothing is said here about refused arguments. -/
  complaint : Option String
  deriving DecidableEq, Repr

namespace Report

/-- All went well. -/
def success (output : List UInt8) : Report := ⟨0, output, some ""⟩

/-- Something could not be done after `output` had been written. -/
def failure (output : List UInt8) (f : Failure) : Report := ⟨1, output, some (f.message ++ "\n")⟩

/-- The arguments were refused. -/
def refusal : Report := ⟨2, [], none⟩

end Report

/-- The text of the source file at a path. -/
def source (tree : Tree) (path : String) : Except Failure String :=
  match tree.readText path with
  | .error e => .error (.unreadable path e)
  | .ok text => .ok text

/-- The program in the source file at a path. -/
def program (tree : Tree) (path : String) : Except Failure Program := do
  programOf path (← source tree path)

/-- What the command does with its arguments, the files it finds and what is typed. -/
def run (arguments : List String) (tree : Tree) (input : List UInt8) : Report :=
  match plan arguments with
  | .refuse => .refusal
  | .version => .success (Text.encode (version ++ "\n"))
  | .session =>
    match Session.run input (.empty none) with
    | .ok _ sink => .success sink.written
    | .error e sink => .failure sink.written (.stream e)
  | .file path tokens =>
    match source tree path >>= shown path tokens with
    | .error f => .failure [] f
    | .ok result => .success (Text.encode result)

end Command
end CircuitText
