/-!
# Escapes in string literals

Between the quotes of a string literal a backslash and the character after it are read as a pair.
The nine pairs of the escape table stand for one character each; every other pair stands for
itself, so that a stray backslash is kept, and so is a backslash at the very end.

* `escaped?` --- the escape table;
* `unescape` --- the characters that a literal's body stands for.
-/

namespace CircuitText
namespace Text

/-- The character that a backslash followed by `c` stands for, if the pair is in the table. -/
def escaped? (c : Char) : Option Char :=
  match c with
  | 'n' => some '\n'
  | '"' => some '"'
  | '\'' => some '\''
  | 'a' => some '\x07'
  | 'b' => some '\x08'
  | 'f' => some '\x0c'
  | 'r' => some '\r'
  | 't' => some '\t'
  | 'v' => some '\x0b'
  | _ => none

/-- What a backslash followed by `c` stands for. -/
def readPair (c : Char) : List Char :=
  match escaped? c with
  | some d => [d]
  | none => ['\\', c]

/-- The characters that the body of a string literal stands for, pairs being read from the left. -/
def unescape : List Char → List Char
  | [] => []
  | c :: rest =>
    if c = '\\' then
      match rest with
      | [] => [c]
      | d :: rest => readPair d ++ unescape rest
    else c :: unescape rest

@[simp] theorem unescape_nil : unescape [] = [] := rfl

/-- A backslash with nothing after it is kept. -/
theorem unescape_lone : unescape ['\\'] = ['\\'] := rfl

/-- A backslash and the character after it are read together. -/
theorem unescape_pair (d : Char) (rest : List Char) :
    unescape ('\\' :: d :: rest) = readPair d ++ unescape rest := by
  simp [unescape]

/-- Any other character stands for itself. -/
theorem unescape_cons {c : Char} (h : c ≠ '\\') (rest : List Char) :
    unescape (c :: rest) = c :: unescape rest := by
  rw [unescape.eq_def]
  simp [h]

/-- A body without a backslash stands for itself. -/
theorem unescape_eq_self {body : List Char} (h : '\\' ∉ body) : unescape body = body := by
  induction body with
  | nil => rfl
  | cons c rest ih =>
    obtain ⟨hc, hrest⟩ := List.ne_and_not_mem_of_not_mem_cons h
    rw [unescape_cons (Ne.symm hc), ih hrest]

end Text
end CircuitText
