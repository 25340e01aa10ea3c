import CircuitText.Token.Lexer

/-!
# The supply of tokens

Whoever takes tokens one at a time from a text gets its tokens in order, and from then on the end
token as often as it is asked for.  `taken` counts how often a token was asked for, end tokens
included.

* `Supply.next` --- takes a token;
* `Supply.ofLexer` --- what a lexer has left to give.
-/

namespace CircuitText

/-- Tokens that can be taken one at a time. -/
structure Supply where
  /-- The tokens before the end. -/
  upcoming : List Token
  /-- Where the end token stands. -/
  finish : Position
  /-- How many tokens were taken. -/
  taken : Nat
  deriving DecidableEq, Repr

namespace Supply

/-- Takes the next token; at the end it is the end token, however often it was taken before. -/
def next (s : Supply) : Token × Supply :=
  match s.upcoming with
  | [] => (.endOfText s.finish, { s with taken := s.taken + 1 })
  | t :: upcoming => (t, { s with upcoming, taken := s.taken + 1 })

/-- The tokens that a lexer has left to give. -/
def ofLexer (l : Lexer) : Supply :=
  let found := l.drain
  ⟨found.1, found.2.nextToken.1.span.first, 0⟩

@[simp] theorem taken_next (s : Supply) : s.next.2.taken = s.taken + 1 := by
  unfold next
  split <;> rfl

theorem next_of_nil {s : Supply} (h : s.upcoming = []) :
    s.next = (.endOfText s.finish, { s with taken := s.taken + 1 }) := by
  simp [next, h]

theorem next_of_cons {s : Supply} {t : Token} {ts : List Token} (h : s.upcoming = t :: ts) :
    s.next = (t, { s with upcoming := ts, taken := s.taken + 1 }) := by
  simp [next, h]

end Supply

end CircuitText
