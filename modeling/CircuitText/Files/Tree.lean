import CircuitText.Files.Path
import CircuitText.Text.Bytes

/-!
# Reading files from a tree

A tree of files tells what stands at the places that paths lead to.  A path is followed step by step
from the working directory, or from the root if it begins with a slash.  Going back from the working
directory leads to the directory above it, whose own name is not known here; the root is above
itself.  Every step needs a directory to stand in, so a file cannot be followed by a slash.

* `Location` --- where steps lead;
* `Tree.insert` --- puts a file or a directory at a path, making the directories on the way;
* `Tree.read`, `Tree.readText` --- the bytes and the text of the file that a path leads to.
-/

namespace CircuitText

/-- Why a file cannot be read. -/
inductive ReadError where
  | notFound
  | notADirectory
  | isADirectory
  /-- The file is there, but it is not valid UTF-8. -/
  | notUtf8
  /-- Another reason, in the words of the system. -/
  | other (reason : String)
  deriving DecidableEq, Repr

namespace ReadError

/-- The wording of an error. -/
def message : ReadError → String
  | .notFound => "No such file or directory (os error 2)"
  | .notADirectory => "Not a directory (os error 20)"
  | .isADirectory => "Is a directory (os error 21)"
  | .notUtf8 => "stream did not contain valid UTF-8"
  | .other reason => reason

end ReadError

/-- The text of what was read from a file. -/
def textOfFile (bytes : List UInt8) : Except ReadError String :=
  match Text.decode? bytes with
  | none => .error .notUtf8
  | some text => .ok text

/-! ## Locations -/

/-- Where names are looked up from. -/
inductive Base where
  /-- So many directories above the working directory. -/
  | working (back : Nat)
  /-- The root of all directories. -/
  | root
  deriving DecidableEq, Repr

/-- A place that steps lead to. -/
structure Location where
  base : Base
  /-- The names to be followed from there. -/
  names : List (List Char)
  deriving DecidableEq, Repr

namespace Location

/-- Where the steps of a path start. -/
def start (path : String) : Location :=
  if path.toList.head? = some '/' then ⟨.root, []⟩ else ⟨.working 0, []⟩

/-- The directory in which a place is. -/
def above (l : Location) : Location :=
  match l.names, l.base with
  | [], .working back => ⟨.working (back + 1), []⟩
  | [], .root => l
  | name :: names, _ => { l with names := (name :: names).dropLast }

/-- Where a step leads. -/
def step (l : Location) (step : List Char) : Location :=
  if staysPut step then l
  else if goesBack step then l.above
  else { l with names := l.names ++ [step] }

end Location

/-! ## Trees -/

/-- What may stand at a place. -/
inductive Node where
  | file (bytes : List UInt8)
  | directory
  deriving DecidableEq, Repr

/-- What stands at which place; of two entries for a place the first one counts. -/
structure Tree where
  entries : List (Location × Node)
  deriving DecidableEq, Repr

namespace Tree

/-- The tree without files. -/
def empty : Tree := ⟨[]⟩

/-- What stands at a place. -/
def at? (tree : Tree) (l : Location) : Option Node :=
  if l.names = [] then some .directory
  else (tree.entries.find? fun entry => entry.1 == l).map (·.2)

/-- The tree with a node at a place. -/
def put (tree : Tree) (l : Location) (node : Node) : Tree := ⟨(l, node) :: tree.entries⟩

/-- The tree with a node where steps lead from a place, and with the directories on the way. -/
def putAlong (tree : Tree) (l : Location) (node : Node) : List (List Char) → Tree
  | [] => tree
  | [last] => tree.put (l.step last) node
  | next :: after :: more =>
    let l := l.step next
    let tree := if (tree.at? l).isSome then tree else tree.put l .directory
    tree.putAlong l node (after :: more)

/-- The tree with a node at a path, and with the directories on the way. -/
def insert (tree : Tree) (path : String) (node : Node) : Tree :=
  tree.putAlong (.start path) node (steps path.toList)

/-- What steps lead to from a place. -/
def follow (tree : Tree) (l : Location) : List (List Char) → Except ReadError Node
  | [] =>
    match tree.at? l with
    | none => .error .notFound
    | some node => .ok node
  | next :: more =>
    match tree.at? l with
    | none => .error .notFound
    | some (.file _) => .error .notADirectory
    | some .directory => tree.follow (l.step next) more

/-- The bytes of the file that a path leads to. -/
def read (tree : Tree) (path : String) : Except ReadError (List UInt8) :=
  if path = "" then .error .notFound
  else
    match tree.follow (.start path) (steps path.toList) with
    | .error e => .error e
    | .ok .directory => .error .isADirectory
    | .ok (.file bytes) => .ok bytes

/-- The text of the file that a path leads to. -/
def readText (tree : Tree) (path : String) : Except ReadError String :=
  match tree.read path with
  | .error e => .error e
  | .ok bytes => textOfFile bytes

/-- What was put at a place other than a base stands there. -/
theorem at?_put_self (tree : Tree) {l : Location} (h : l.names ≠ []) (node : Node) :
    (tree.put l node).at? l = some node := by
  simp [at?, put, h]

/-- What stands elsewhere stays there. -/
theorem at?_put_of_ne (tree : Tree) {l m : Location} (h : l ≠ m) (node : Node) :
    (tree.put l node).at? m = tree.at? m := by
  simp [at?, put, h]

end Tree

end CircuitText
