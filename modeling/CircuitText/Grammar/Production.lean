import CircuitText.Fault
import CircuitText.Grammar.Supply

/-!
# Productions

A production reads one construct of the language off a supply of tokens.  It is entered with the
first token of the construct in `current` and is left with the last one there; `ahead` is the token
after it, by which every choice is made.  A fault is noted in the list of faults and ends the
production and everything around it.  An illegal character is noted as soon as it comes in sight,
and reading goes on; it is up to the productions to find no use for it.

Productions never give tokens back.  `State.remaining` counts the tokens that have not become
`current` yet, and an `Outcome` carries the proof that it has not grown.  This is what makes
repetition total: `whileAhead` takes a token in every round, and `untilEnd` repeats a production
that cannot succeed without taking one.

* `State`, `State.remaining` --- the tokens in sight, the faults so far, the depth of nesting;
* `Production` --- the monad of productions;
* `advance`, `expect`, `fail` --- taking a token, taking one of a given kind, giving up;
* `nested` --- one level deeper, within the nesting limit;
* `whileAhead`, `untilEnd` --- repetition.
-/

namespace CircuitText
namespace Grammar

/-! ## States -/

/-- What a production works on. -/
structure State where
  /-- The token that is being read. -/
  current : Token
  /-- The token after it. -/
  ahead : Token
  /-- The tokens after that. -/
  supply : Supply
  /-- The faults found so far, in the order in which they were found. -/
  faults : List Fault
  /-- How many nested constructs are open. -/
  depth : Nat
  deriving DecidableEq

namespace State

/-- How many tokens, the end token aside, have not become `current` yet. -/
def remaining (s : State) : Nat :=
  s.supply.upcoming.length + if s.ahead.kind = .endOfText then 0 else 1

/-- Notes a fault. -/
def note (s : State) (f : Fault) : State := { s with faults := s.faults ++ [f] }

/-- Notes the token that has come in sight if it is illegal. -/
def noteIllegal (s : State) : State :=
  if s.ahead.kind = .illegal then s.note (.illegal s.ahead) else s

/-- Moves on by one token. -/
def advance (s : State) : State :=
  let found := s.supply.next
  noteIllegal { s with current := s.ahead, ahead := found.1, supply := found.2 }

/-- One level deeper. -/
def deeper (s : State) : State := { s with depth := s.depth + 1 }

/-- One level less deep. -/
def shallower (s : State) : State := { s with depth := s.depth - 1 }

/-- The state before a supply of tokens, its first token being the current one. -/
def start (supply : Supply) : State :=
  let found := supply.next
  advance (noteIllegal ⟨.endOfText found.1.span.first, found.1, found.2, [], 0⟩)

@[simp] theorem remaining_note (s : State) (f : Fault) : (s.note f).remaining = s.remaining := rfl

@[simp] theorem remaining_noteIllegal (s : State) : s.noteIllegal.remaining = s.remaining := by
  unfold noteIllegal
  split <;> rfl

/-- Moving on takes a token unless the end is in sight. -/
theorem remaining_advance_lt {s : State} (h : s.ahead.kind ≠ .endOfText) :
    s.advance.remaining < s.remaining := by
  simp only [advance, remaining_noteIllegal]
  simp only [remaining, if_neg h]
  cases hs : s.supply.upcoming with
  | nil => simp [Supply.next_of_nil hs, Token.endOfText, hs]
  | cons t ts =>
    simp only [Supply.next_of_cons hs, List.length_cons]
    split <;> omega

/-- Moving on gives no token back. -/
theorem remaining_advance_le (s : State) : s.advance.remaining ≤ s.remaining := by
  by_cases h : s.ahead.kind = .endOfText
  · simp only [advance, remaining_noteIllegal]
    simp only [remaining, if_pos h]
    cases hs : s.supply.upcoming with
    | nil => simp [Supply.next_of_nil hs, Token.endOfText, hs]
    | cons t ts =>
      simp only [Supply.next_of_cons hs, List.length_cons]
      split <;> omega
  · exact Nat.le_of_lt (remaining_advance_lt h)

end State

/-! ## Productions -/

/-- What comes of a production that is started in the state `before`. -/
structure Outcome (before : State) (α : Type) where
  /-- What was read, or the fault that ended the production. -/
  result : Except Fault α
  /-- The state in which the production ended. -/
  after : State
  /-- No token was given back. -/
  remaining_le : after.remaining ≤ before.remaining

namespace Outcome

variable {α : Type}

/-- What comes of it for an earlier state. -/
def since {s t : State} (o : Outcome t α) (le : t.remaining ≤ s.remaining) : Outcome s α :=
  ⟨o.result, o.after, Nat.le_trans o.remaining_le le⟩

/-- What comes of it one level up. -/
def leave {s : State} (o : Outcome s.deeper α) : Outcome s α :=
  ⟨o.result, o.after.shallower, o.remaining_le⟩

end Outcome

/-- A way to read one construct of the language. -/
def Production (α : Type) : Type := (s : State) → Outcome s α

namespace Production

variable {α β : Type}

/-- Reads nothing. -/
protected def pure (a : α) : Production α := fun s => ⟨.ok a, s, Nat.le_refl _⟩

/-- Reads one construct and, unless it is faulty, goes on with another. -/
protected def bind (p : Production α) (f : α → Production β) : Production β := fun s =>
  match p s with
  | ⟨.ok a, t, le⟩ => (f a t).since le
  | ⟨.error e, t, le⟩ => ⟨.error e, t, le⟩

instance : Monad Production where
  pure := Production.pure
  bind := Production.bind

end Production

variable {α β : Type}

/-- The token that is being read. -/
def current : Production Token := fun s => ⟨.ok s.current, s, Nat.le_refl _⟩

/-- The token after the one that is being read. -/
def ahead : Production Token := fun s => ⟨.ok s.ahead, s, Nat.le_refl _⟩

/-- Whether the token ahead is of a given kind. -/
def aheadIs (k : Kind) : Production Bool := fun s => ⟨.ok (s.ahead.kind == k), s, Nat.le_refl _⟩

/-- Moves on by one token, whatever it is. -/
def advance : Production Unit := fun s => ⟨.ok (), s.advance, s.remaining_advance_le⟩

/-- Gives up with a fault, which is noted. -/
def fail (f : Fault) : Production α := fun s => ⟨.error f, s.note f, Nat.le_refl _⟩

/-- Moves on to a token of the given kind; it is a fault if another one is ahead. -/
def expect (k : Kind) : Production Unit := fun s =>
  if s.ahead.kind = k then advance s else fail (.expected k s.ahead) s

/-- Moves on to a name. -/
def expectName : Production String := do
  expect .ident
  return (← current).literal

/-- Refuses a construct that would be nested too deep; its first token is the current one. -/
def tooDeep : Production α := fun s => fail ⟨.nestedTooDeep, s.current.span⟩ s

/-- Reads a nested construct, unless the nesting limit has been reached. -/
def nested (inner : Production α) : Production α := fun s =>
  if s.depth < nestingLimit then (inner s.deeper).leave else tooDeep s

/-! ## Repetition -/

/-- As long as a token of a wanted kind is ahead, moves on to it and reads `body` there. -/
def whileAhead (wanted : Kind → Bool) (stops : wanted .endOfText = false) (body : Production α)
    (s : State) : Outcome s (List α) :=
  if h : wanted s.ahead.kind = true then
    have shorter : s.advance.remaining < s.remaining :=
      s.remaining_advance_lt fun hend => by simp [hend, stops] at h
    match body s.advance with
    | ⟨.error e, t, le⟩ => ⟨.error e, t, Nat.le_trans le (Nat.le_of_lt shorter)⟩
    | ⟨.ok a, t, le⟩ =>
      match whileAhead wanted stops body t with
      | ⟨.error e, u, le'⟩ => ⟨.error e, u, by omega⟩
      | ⟨.ok as, u, le'⟩ => ⟨.ok (a :: as), u, by omega⟩
  else ⟨.ok [], s, Nat.le_refl _⟩
termination_by s.remaining

/-- A production that cannot succeed without taking a token. -/
def Consumes (p : Production α) : Prop :=
  ∀ s a, (p s).result = .ok a → (p s).after.remaining < s.remaining

/-- Reads one construct after the other until the end token is the current one. -/
def untilEnd (p : Production α) (takes : Consumes p) (s : State) : Outcome s (List α) :=
  if s.current.kind = .endOfText then ⟨.ok [], s, Nat.le_refl _⟩
  else
    match h : p s with
    | ⟨.error e, t, le⟩ => ⟨.error e, t, le⟩
    | ⟨.ok a, t, le⟩ =>
      have shorter : t.remaining < s.remaining := by simpa [h] using takes s a (by rw [h])
      match untilEnd p takes t with
      | ⟨.error e, u, le'⟩ => ⟨.error e, u, by omega⟩
      | ⟨.ok as, u, le'⟩ => ⟨.ok (a :: as), u, by omega⟩
termination_by s.remaining

/-! ### Productions that take a token -/

theorem consumes_fail (f : Fault) : Consumes (fail f : Production α) := by
  intro s a h
  simp [fail] at h

theorem consumes_expect {k : Kind} (hk : k ≠ .endOfText) : Consumes (expect k) := by
  intro s a h
  unfold expect at h ⊢
  split at h
  · rename_i hahead
    rw [if_pos hahead]
    exact s.remaining_advance_lt (hahead ▸ hk)
  · simp [fail] at h

/-- It is enough that the first part takes a token. -/
theorem consumes_bind_left {p : Production α} (hp : Consumes p) (f : α → Production β) :
    Consumes (p >>= f) := by
  intro s b h
  change (Production.bind p f s).result = _ at h
  change (Production.bind p f s).after.remaining < _
  have htakes := hp s
  unfold Production.bind at h ⊢
  split at h
  · rename_i a t le hps
    rw [hps] at htakes
    exact Nat.lt_of_le_of_lt (f a t).remaining_le (htakes a rfl)
  · simp at h

/-- It is enough that the second part takes a token. -/
theorem consumes_bind_right {f : α → Production β} (p : Production α)
    (hf : ∀ a, Consumes (f a)) : Consumes (p >>= f) := by
  intro s b h
  change (Production.bind p f s).result = _ at h
  change (Production.bind p f s).after.remaining < _
  unfold Production.bind at h ⊢
  split at h
  · rename_i a t le hps
    exact Nat.lt_of_lt_of_le (hf a t b h) le
  · simp at h

theorem consumes_expectName : Consumes expectName :=
  consumes_bind_left (consumes_expect (by decide)) _

end Grammar
end CircuitText
