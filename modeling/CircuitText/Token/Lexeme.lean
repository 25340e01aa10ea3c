import CircuitText.Text.Escape
import CircuitText.Text.Letter
import CircuitText.Token.Kind

/-!
# Lexemes

A lexeme is the stretch of text that a token is read from.  The language has twenty-one sorts of
lexeme, listed in `lexemes`, and each sort is a *pattern* that splits a lexeme off the front of a
text, or refuses it.  At any place the first sort that fits decides the token, so the order of the
list makes `-2` a number and keeps `->` in one piece.

A string is the delicate one.  It is closed by the first later quote that does not stand right
after a backslash; only when every later quote stands after a backslash does the last of them close
it, and the body then ends in that backslash.  `splitString?` finds the quote in one pass: at a
quote after a backslash it looks first whether a later quote can close the string.  The patterns as
regular expressions, and that `split?` finds the match that a search with backtracking finds first,
are in `CircuitText.Proofs.Lexing.Backtracking`.

* `Pattern.split?` --- the lexeme at the front of a text and what follows it;
* `Pattern.append_of_split?` --- the two parts make up the text;
* `lexemes` --- the sorts of lexeme in order;
* `Lexeme.read` --- the lexeme at the front of a text, a single illegal character if no sort fits.
-/

namespace CircuitText

/-! ## Shapes of lexemes -/

/-- The shape of a lexeme. -/
inductive Pattern where
  /-- Digits, with an optional sign before them and an optional fraction after them. -/
  | number
  /-- A text between two of the given quotes. -/
  | string (quote : Char)
  /-- A letter, mark or underscore, and then any of these, digits, `!` and `?`. -/
  | word
  /-- Just these characters. -/
  | symbol (first : Char) (more : List Char)
  deriving DecidableEq, Repr

/-- A character that a word may begin with. -/
def startsWord (c : Char) : Bool := Text.isLetterOrMark c || c == '_'

/-- A character that may stand inside a word. -/
def continuesWord (c : Char) : Bool := startsWord c || c.isDigit || c == '!' || c == '?'

namespace Pattern

/-- The sign of a number, if it has one. -/
def splitSign : List Char → List Char × List Char
  | [] => ([], [])
  | c :: cs => if c = '-' ∨ c = '+' then ([c], cs) else ([], c :: cs)

/-- A point with at least one digit after it. -/
def splitFraction : List Char → List Char × List Char
  | [] => ([], [])
  | c :: cs =>
    if c = '.' ∧ cs.takeWhile Char.isDigit ≠ [] then
      (c :: cs.takeWhile Char.isDigit, cs.dropWhile Char.isDigit)
    else ([], c :: cs)

/-- Splits a number off the front of a text. -/
def splitNumber? (cs : List Char) : Option (List Char × List Char) :=
  let sign := splitSign cs
  let whole := sign.2.takeWhile Char.isDigit
  let fraction := splitFraction (sign.2.dropWhile Char.isDigit)
  if whole = [] then none else some (sign.1 ++ (whole ++ fraction.1), fraction.2)

/-- Splits the body of a string and its closing quote off the text after the opening quote.  The
flag tells whether the character before the text is a backslash. -/
def splitString? (quote : Char) : Bool → List Char → Option (List Char × List Char)
  | _, [] => none
  | afterBackslash, c :: cs =>
    if c = quote then
      if afterBackslash then
        match splitString? quote false cs with
        | some (body, rest) => some (c :: body, rest)
        | none => some ([c], cs)
      else some ([c], cs)
    else
      match splitString? quote (c = '\\') cs with
      | some (body, rest) => some (c :: body, rest)
      | none => none

/-- Splits the lexeme of a given shape off the front of a text. -/
def split? : Pattern → List Char → Option (List Char × List Char)
  | .number, cs => splitNumber? cs
  | .string _, [] => none
  | .string quote, c :: cs =>
    if c = quote then (splitString? quote false cs).map fun found => (c :: found.1, found.2)
    else none
  | .word, [] => none
  | .word, c :: cs =>
    if startsWord c then some (c :: cs.takeWhile continuesWord, cs.dropWhile continuesWord)
    else none
  | .symbol _ _, [] => none
  | .symbol first more, c :: cs =>
    if c = first ∧ more.isPrefixOf cs then some (first :: more, cs.drop more.length) else none

/-- The characters that a lexeme of a given shape stands for. -/
def literal : Pattern → List Char → List Char
  | .string _, text => Text.unescape text.tail.dropLast
  | _, text => text

/-! ### The two parts make up the text, and the first is not empty -/

theorem append_splitSign (cs : List Char) : (splitSign cs).1 ++ (splitSign cs).2 = cs := by
  cases cs with
  | nil => rfl
  | cons c cs => simp only [splitSign]; split <;> rfl

theorem append_splitFraction (cs : List Char) :
    (splitFraction cs).1 ++ (splitFraction cs).2 = cs := by
  cases cs with
  | nil => rfl
  | cons c cs => simp only [splitFraction]; split <;> simp

theorem append_of_splitString? {quote : Char} {afterBackslash : Bool} {cs body rest : List Char}
    (h : splitString? quote afterBackslash cs = some (body, rest)) : body ++ rest = cs := by
  induction cs generalizing afterBackslash body with
  | nil => simp [splitString?] at h
  | cons c cs ih =>
    unfold splitString? at h
    split at h
    · split at h
      · split at h
        · rename_i found
          simp only [Option.some.injEq, Prod.mk.injEq] at h
          obtain ⟨rfl, rfl⟩ := h
          rw [List.cons_append, ih found]
        · simp only [Option.some.injEq, Prod.mk.injEq] at h
          obtain ⟨rfl, rfl⟩ := h
          rfl
      · simp only [Option.some.injEq, Prod.mk.injEq] at h
        obtain ⟨rfl, rfl⟩ := h
        rfl
    · split at h
      · rename_i found
        simp only [Option.some.injEq, Prod.mk.injEq] at h
        obtain ⟨rfl, rfl⟩ := h
        rw [List.cons_append, ih found]
      · simp at h

/-- A lexeme and what follows it make up the text. -/
theorem append_of_split? {p : Pattern} {cs text rest : List Char}
    (h : p.split? cs = some (text, rest)) : text ++ rest = cs := by
  cases p with
  | number =>
    simp only [split?, splitNumber?] at h
    split at h
    · simp at h
    · simp only [Option.some.injEq, Prod.mk.injEq] at h
      obtain ⟨rfl, rfl⟩ := h
      rw [List.append_assoc, List.append_assoc, append_splitFraction,
        List.takeWhile_append_dropWhile, append_splitSign]
  | string quote =>
    cases cs with
    | nil => simp [split?] at h
    | cons c cs =>
      simp only [split?] at h
      split at h
      · obtain ⟨found, hfound, heq⟩ := Option.map_eq_some_iff.mp h
        simp only [Prod.mk.injEq] at heq
        obtain ⟨rfl, rfl⟩ := heq
        rw [List.cons_append, append_of_splitString? hfound]
      · simp at h
  | word =>
    cases cs with
    | nil => simp [split?] at h
    | cons c cs =>
      simp only [split?] at h
      split at h
      · simp only [Option.some.injEq, Prod.mk.injEq] at h
        obtain ⟨rfl, rfl⟩ := h
        rw [List.cons_append, List.takeWhile_append_dropWhile]
      · simp at h
  | symbol first more =>
    cases cs with
    | nil => simp [split?] at h
    | cons c cs =>
      simp only [split?] at h
      split at h
      · rename_i hfits
        simp only [Option.some.injEq, Prod.mk.injEq] at h
        obtain ⟨rfl, rfl⟩ := h
        obtain ⟨tail, rfl⟩ := List.isPrefixOf_iff_prefix.mp hfits.2
        simp [hfits.1]
      · simp at h

/-- A lexeme has at least one character. -/
theorem ne_nil_of_split? {p : Pattern} {cs text rest : List Char}
    (h : p.split? cs = some (text, rest)) : text ≠ [] := by
  cases p with
  | number =>
    simp only [split?, splitNumber?] at h
    split at h
    · simp at h
    · rename_i hwhole
      simp only [Option.some.injEq, Prod.mk.injEq] at h
      obtain ⟨rfl, rfl⟩ := h
      simp [hwhole]
  | string quote =>
    cases cs with
    | nil => simp [split?] at h
    | cons c cs =>
      simp only [split?] at h
      split at h
      · obtain ⟨found, -, heq⟩ := Option.map_eq_some_iff.mp h
        simp only [Prod.mk.injEq] at heq
        simp [← heq.1]
      · simp at h
  | word =>
    cases cs with
    | nil => simp [split?] at h
    | cons c cs =>
      simp only [split?] at h
      split at h
      · simp only [Option.some.injEq, Prod.mk.injEq] at h
        simp [← h.1]
      · simp at h
  | symbol first more =>
    cases cs with
    | nil => simp [split?] at h
    | cons c cs =>
      simp only [split?] at h
      split at h
      · simp only [Option.some.injEq, Prod.mk.injEq] at h
        simp [← h.1]
      · simp at h

end Pattern

/-! ## The sorts of lexeme -/

/-- A sort of lexeme: its shape and the kind of token it makes. -/
structure LexemeSort where
  pattern : Pattern
  kind : Kind
  deriving DecidableEq, Repr

namespace LexemeSort

/-- The kind of token that a lexeme of this sort makes: a word that is a keyword has a kind of its
own. -/
def kindOf (sort : LexemeSort) (text : List Char) : Kind :=
  match sort.pattern with
  | .word => (Kind.ofKeyword? (String.ofList text)).getD sort.kind
  | _ => sort.kind

end LexemeSort

/-- The sorts of lexeme, those that are tried first coming first. -/
def lexemes : List LexemeSort :=
  [⟨.number, .number⟩,
    ⟨.string '"', .string⟩,
    ⟨.string '\'', .string⟩,
    ⟨.word, .ident⟩,
    ⟨.symbol ';' [], .semicolon⟩,
    ⟨.symbol '(' [], .leftParen⟩,
    ⟨.symbol ')' [], .rightParen⟩,
    ⟨.symbol '\x7b' [], .leftBrace⟩,
    ⟨.symbol '\x7d' [], .rightBrace⟩,
    ⟨.symbol ',' [], .comma⟩,
    ⟨.symbol '%' [], .percent⟩,
    ⟨.symbol '-' ['>'], .arrow⟩,
    ⟨.symbol ':' [], .colon⟩,
    ⟨.symbol '!' [], .prefixOp⟩,
    ⟨.symbol '¬' [], .prefixOp⟩,
    ⟨.symbol '&' [], .infixOp⟩,
    ⟨.symbol '|' [], .infixOp⟩,
    ⟨.symbol '^' [], .infixOp⟩,
    ⟨.symbol '∧' [], .infixOp⟩,
    ⟨.symbol '∨' [], .infixOp⟩,
    ⟨.symbol '⊻' [], .infixOp⟩]

/-- A lexeme together with the text that follows it. -/
structure Lexeme where
  kind : Kind
  /-- The characters it stands for. -/
  literal : List Char
  /-- The characters it is made of. -/
  text : List Char
  /-- What follows it. -/
  rest : List Char
  deriving DecidableEq, Repr

namespace Lexeme

/-- The lexeme of a given sort at the front of a text. -/
def ofSort? (cs : List Char) (sort : LexemeSort) : Option Lexeme :=
  (sort.pattern.split? cs).map fun found =>
    ⟨sort.kindOf found.1, sort.pattern.literal found.1, found.1, found.2⟩

/-- A character that no sort of lexeme begins with, taken by itself. -/
def illegal (c : Char) (cs : List Char) : Lexeme := ⟨.illegal, [c], [c], cs⟩

/-- The lexeme at the front of a text that is not empty, by the first sort of `sorts` that fits. -/
def readBy (sorts : List LexemeSort) (c : Char) (cs : List Char) : Lexeme :=
  (sorts.findSome? (ofSort? (c :: cs))).getD (illegal c cs)

/-- The lexeme at the front of a text that is not empty. -/
def read (c : Char) (cs : List Char) : Lexeme := readBy lexemes c cs

/-- A lexeme comes from one of the sorts, or is an illegal character. -/
theorem readBy_cases (sorts : List LexemeSort) (c : Char) (cs : List Char) :
    (∃ sort ∈ sorts, ofSort? (c :: cs) sort = some (readBy sorts c cs)) ∨
      readBy sorts c cs = illegal c cs := by
  unfold readBy
  cases h : sorts.findSome? (ofSort? (c :: cs)) with
  | none => exact Or.inr rfl
  | some x =>
    obtain ⟨sort, hsort, hx⟩ := List.exists_of_findSome?_eq_some h
    exact Or.inl ⟨sort, hsort, hx⟩

/-- A lexeme and what follows it make up the text. -/
theorem append_readBy (sorts : List LexemeSort) (c : Char) (cs : List Char) :
    (readBy sorts c cs).text ++ (readBy sorts c cs).rest = c :: cs := by
  rcases readBy_cases sorts c cs with ⟨sort, -, h⟩ | h
  · obtain ⟨found, hfound, heq⟩ := Option.map_eq_some_iff.mp h
    rw [← heq]
    exact Pattern.append_of_split? hfound
  · rw [h]
    rfl

/-- A lexeme has at least one character. -/
theorem text_readBy_ne_nil (sorts : List LexemeSort) (c : Char) (cs : List Char) :
    (readBy sorts c cs).text ≠ [] := by
  rcases readBy_cases sorts c cs with ⟨sort, -, h⟩ | h
  · obtain ⟨found, hfound, heq⟩ := Option.map_eq_some_iff.mp h
    rw [← heq]
    exact Pattern.ne_nil_of_split? hfound
  · rw [h]
    exact List.cons_ne_nil _ _

/-- Reading a lexeme leaves less to read. -/
theorem length_rest_readBy_lt (sorts : List LexemeSort) (c : Char) (cs : List Char) :
    (readBy sorts c cs).rest.length < (c :: cs).length := by
  have hsplit := congrArg List.length (append_readBy sorts c cs)
  have hpos := List.length_pos_iff.mpr (text_readBy_ne_nil sorts c cs)
  rw [List.length_append] at hsplit
  omega

end Lexeme

end CircuitText
