import CircuitText.Text.Blank
import CircuitText.Text.Joined
import CircuitText.Token.Basic
import CircuitText.Token.Lexeme

/-!
# Reading tokens off a text

A lexer is a text that is still to be read, and the place where it starts.  One token is read at a
time: blanks and comments are passed over, the lexeme at the front becomes a token, and then the
blanks and the comment that stand behind it on the same line are passed over as well.  A comment
runs from `#` to the end of its line, the line feed not included; every text is read as if a line
feed followed it, so that a comment always ends.

Tokens can be asked for in two ways.  `nextToken` gives an end token when nothing is left, and goes
on giving it.  `next?` gives nothing instead, once and for all.

* `splitGap`, `splitTrailing` --- what is passed over before and behind a token;
* `Lexer.nextToken`, `Lexer.next?`, `Lexer.drain` --- one token, one token if there is one, all;
* `Lexer.tokenize`, `Lexer.listing` --- the tokens of a text, and their texts one to a line.
-/

namespace CircuitText

/-! ## What separates tokens -/

/-- Splits the blanks and comments off the front of a text.  The flag tells whether the text begins
inside a comment. -/
def splitGap : Bool → List Char → List Char × List Char
  | _, [] => ([], [])
  | inComment, c :: cs =>
    let commented := (inComment && c != '\n') || c == '#'
    if commented || Text.isBlank c then
      let found := splitGap commented cs
      (c :: found.1, found.2)
    else ([], c :: cs)

/-- A blank that does not end the line. -/
def isInlineBlank (c : Char) : Bool := Text.isBlank c && c != '\n'

/-- Splits a comment off the front of a text, up to the end of its line. -/
def splitComment : List Char → List Char × List Char
  | [] => ([], [])
  | c :: cs =>
    if c = '#' then (c :: cs.takeWhile (· != '\n'), cs.dropWhile (· != '\n')) else ([], c :: cs)

/-- Splits off what may stand behind a token on its line: blanks, and then a comment. -/
def splitTrailing (cs : List Char) : List Char × List Char :=
  let found := splitComment (cs.dropWhile isInlineBlank)
  (cs.takeWhile isInlineBlank ++ found.1, found.2)

theorem append_splitGap (inComment : Bool) (cs : List Char) :
    (splitGap inComment cs).1 ++ (splitGap inComment cs).2 = cs := by
  induction cs generalizing inComment with
  | nil => rfl
  | cons c cs ih =>
    unfold splitGap
    dsimp only
    split
    · rw [List.cons_append, ih]
    · rfl

theorem append_splitComment (cs : List Char) : (splitComment cs).1 ++ (splitComment cs).2 = cs := by
  cases cs with
  | nil => rfl
  | cons c cs => simp only [splitComment]; split <;> simp

theorem append_splitTrailing (cs : List Char) :
    (splitTrailing cs).1 ++ (splitTrailing cs).2 = cs := by
  simp [splitTrailing, append_splitComment, List.append_assoc, List.takeWhile_append_dropWhile]

/-! ## Lexers -/

/-- A text that is still to be read. -/
structure Lexer where
  /-- The text. -/
  rest : List Char
  /-- Where the text starts. -/
  place : Position
  /-- Whether `next?` has come to the end. -/
  ended : Bool
  deriving DecidableEq, Repr

namespace Lexer

/-- The label of a text that is given none. -/
def anonymous : String := "<input>"

/-- A lexer for a whole text. -/
def ofText (text : List Char) (file : String) : Lexer :=
  ⟨text ++ ['\n'], .start (if file = "" then anonymous else file), false⟩

/-- Reads past a part of the text. -/
def pass (l : Lexer) (split : List Char × List Char) : Lexer :=
  { l with rest := split.2, place := l.place.after split.1 }

/-- Passes over the blanks and comments at the front. -/
def skipGap (l : Lexer) : Lexer := l.pass (splitGap false l.rest)

/-- Passes over what may stand behind a token on its line. -/
def skipTrailing (l : Lexer) : Lexer := l.pass (splitTrailing l.rest)

/-- The next token, or the end token if there is none. -/
def nextToken (l : Lexer) : Token × Lexer :=
  let l := l.skipGap
  match l.rest with
  | [] => (.endOfText l.place, l)
  | c :: cs =>
    let found := Lexeme.read c cs
    (⟨found.kind, String.ofList found.literal, ⟨l.place, l.place.ofLast found.text⟩⟩,
      (l.pass (found.text, found.rest)).skipTrailing)

/-- The lexer after so many tokens, end tokens included. -/
def after (l : Lexer) : Nat → Lexer
  | 0 => l
  | n + 1 => l.nextToken.2.after n

/-- The next token, if there is one; after the end there is none for ever. -/
def next? (l : Lexer) : Option Token × Lexer :=
  if l.ended then (none, l)
  else
    let found := l.nextToken
    if found.1.kind = .endOfText then (none, { found.2 with ended := true })
    else (some found.1, found.2)

theorem length_rest_skipGap_le (l : Lexer) : l.skipGap.rest.length ≤ l.rest.length := by
  have h := congrArg List.length (append_splitGap false l.rest)
  simp only [skipGap, pass, List.length_append] at h ⊢
  omega

theorem length_rest_skipTrailing_le (l : Lexer) :
    l.skipTrailing.rest.length ≤ l.rest.length := by
  have h := congrArg List.length (append_splitTrailing l.rest)
  simp only [skipTrailing, pass, List.length_append] at h ⊢
  omega

/-- Reading a token other than the end token leaves less to read. -/
theorem length_rest_nextToken_lt {l : Lexer} (h : l.nextToken.1.kind ≠ .endOfText) :
    l.nextToken.2.rest.length < l.rest.length := by
  have hgap := l.length_rest_skipGap_le
  unfold nextToken at h ⊢
  dsimp only at h ⊢
  split at h
  · exact absurd rfl h
  · rename_i c cs hrest
    have hread := Lexeme.length_rest_readBy_lt lexemes c cs
    rw [hrest] at hgap
    refine Nat.lt_of_le_of_lt (length_rest_skipTrailing_le _) ?_
    exact Nat.lt_of_lt_of_le hread hgap

/-- A token given by `next?` leaves less to read. -/
theorem length_rest_next?_lt {l rest : Lexer} {t : Token} (h : l.next? = (some t, rest)) :
    rest.rest.length < l.rest.length := by
  unfold next? at h
  dsimp only at h
  split at h
  · simp at h
  · split at h
    · simp at h
    · rename_i hkind
      simp only [Prod.mk.injEq] at h
      rw [← h.2]
      exact length_rest_nextToken_lt hkind

/-- Every token that is left, in order, and the lexer at its end. -/
def drain (l : Lexer) : List Token × Lexer :=
  match h : l.next? with
  | (none, rest) => ([], rest)
  | (some t, rest) =>
    have _shorter := length_rest_next?_lt h
    let found := rest.drain
    (t :: found.1, found.2)
termination_by l.rest.length

/-- The tokens of a text, without the end token. -/
def tokenize (text : List Char) (file : String) : List Token := (ofText text file).drain.1

/-- The texts of the tokens of a text, one to a line. -/
def listing (text : List Char) (file : String) : String :=
  Text.joined "\n" ((tokenize text file).map (·.render))

end Lexer

end CircuitText
