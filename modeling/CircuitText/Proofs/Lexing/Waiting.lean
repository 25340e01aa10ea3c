import CircuitText.Proofs.Lexing.Lexemes
import CircuitText.Proofs.Lexing.Pulling

/-!
# Gaps that are left for later

Behind every token a lexer passes at once over the blanks and the comment that stand on its line.
Nothing depends on that.  A lexer that waits stays where a lexeme ends, and passes over the whole
gap only when it is asked for the next token.  Behind a token the two may stand in different columns
and have different texts left, but what lies between them is a gap.  Passing over the rest of the
gap takes both to the same place, whether or not the first one has passed over a comment already.
So they find the same lexeme there, or both find that the text has ended.

* `Lexer.waitingToken`, `Lexer.waitingNext?`, `Lexer.waitingDrain`, `Lexer.waitingAnswers` --- the
  lexer that waits;
* `Lexer.AheadOf` --- a lexer that has passed over more of a gap than another;
* `Lexer.AheadOf.skipGap_eq` --- in front of the next token they are together again;
* `Lexer.AheadOf.pull_eq`, `Lexer.AheadOf.answers_eq` --- one pull, and any pulls.
-/

namespace CircuitText
namespace Lexer

variable {l early late rest : Lexer} {t : Token}

/-! ## A lexer that waits -/

/-- The next token, or the end token if there is none.  The lexer waits behind the lexeme. -/
def waitingToken (l : Lexer) : Token × Lexer :=
  let l := l.skipGap
  match l.rest with
  | [] => (.endOfText l.place, l)
  | c :: cs =>
    let found := Lexeme.read c cs
    (l.token c cs, l.pass (found.text, found.rest))

/-- The next token, if there is one, from a lexer that waits; after the end there is none for
ever. -/
def waitingNext? (l : Lexer) : Option Token × Lexer :=
  if l.ended then (none, l)
  else
    let found := l.waitingToken
    if found.1.kind = .endOfText then (none, { found.2 with ended := true })
    else (some found.1, found.2)

theorem waitingToken_of_gap (hgap : l.skipGap.rest = []) :
    l.waitingToken = (.endOfText l.skipGap.place, l.skipGap) := by
  simp only [waitingToken, hgap]

theorem waitingToken_of_lexeme {c : Char} {cs : List Char} (hgap : l.skipGap.rest = c :: cs) :
    l.waitingToken = (l.skipGap.token c cs,
      l.skipGap.pass ((Lexeme.read c cs).text, (Lexeme.read c cs).rest)) := by
  simp only [waitingToken, hgap]

/-- A token from a lexer that waits leaves less to read. -/
theorem length_rest_waitingNext?_lt (h : l.waitingNext? = (some t, rest)) :
    rest.rest.length < l.rest.length := by
  unfold waitingNext? at h
  dsimp only at h
  split at h
  · simp at h
  · split at h
    · simp at h
    · rename_i hkind
      obtain ⟨-, rfl⟩ := Prod.mk.inj h
      cases hgap : l.skipGap.rest with
      | nil => exact absurd (by rw [waitingToken_of_gap hgap]; rfl) hkind
      | cons c cs =>
        rw [waitingToken_of_lexeme hgap]
        refine Nat.lt_of_lt_of_le (Lexeme.length_rest_readBy_lt lexemes c cs) ?_
        rw [← hgap]
        exact l.length_rest_skipGap_le

/-- Every token that is left, in order, from a lexer that waits, and the lexer at its end. -/
def waitingDrain (l : Lexer) : List Token × Lexer :=
  match h : l.waitingNext? with
  | (none, rest) => ([], rest)
  | (some t, rest) =>
    have _shorter := length_rest_waitingNext?_lt h
    (t :: rest.waitingDrain.1, rest.waitingDrain.2)
termination_by l.rest.length

/-- The answers of a lexer that waits to one pull, and the lexer behind them. -/
def waitingPull (l : Lexer) : Pull → List Answer × Lexer
  | .token => ([.token l.waitingToken.1], l.waitingToken.2)
  | .next => ([.next l.waitingNext?.1], l.waitingNext?.2)
  | .rest => (l.waitingDrain.1.map (fun t => .next (some t)) ++ [.next none], l.waitingDrain.2)

/-- The answers of a lexer that waits to pulls, one after the other. -/
def waitingAnswers (l : Lexer) : List Pull → List Answer
  | [] => []
  | p :: ps => (l.waitingPull p).1 ++ (l.waitingPull p).2.waitingAnswers ps

/-! ## Further on in the same gap -/

/-- The lexer `early` has passed over a gap that is still in front of `late`. -/
structure AheadOf (early late : Lexer) : Prop where
  exists_gap : ∃ gap, late.rest = gap ++ early.rest ∧ IsGap gap early.rest ∧
    early.place = late.place.after gap
  ended_eq : early.ended = late.ended

theorem AheadOf.refl (l : Lexer) : l.AheadOf l := ⟨⟨[], rfl, .nil, rfl⟩, rfl⟩

/-- What stands behind a token on its line is a gap. -/
theorem aheadOf_skipTrailing (l : Lexer) : l.skipTrailing.AheadOf l :=
  ⟨⟨(splitTrailing l.rest).1, (append_splitTrailing l.rest).symm, isGap_splitTrailing l.rest, rfl⟩,
    rfl⟩

namespace AheadOf

/-- Passing over the rest of the gap takes both to the same place. -/
theorem skipGap_eq (h : early.AheadOf late) : early.skipGap = late.skipGap := by
  obtain ⟨gap, hrest, hgap, hplace⟩ := h.exists_gap
  calc early.skipGap
      = (Lexer.mk early.rest (late.place.after gap) early.ended).skipGap := by rw [← hplace]
    _ = (Lexer.mk (gap ++ early.rest) late.place early.ended).skipGap :=
        (skipGap_append_of_isGap hgap late.place early.ended).symm
    _ = late.skipGap := by rw [← hrest, h.ended_eq]

/-- Both give the same token, and stay in the same gap. -/
theorem token_eq (h : early.AheadOf late) :
    early.nextToken.1 = late.waitingToken.1 ∧ early.nextToken.2.AheadOf late.waitingToken.2 := by
  cases hgap : late.skipGap.rest with
  | nil =>
    have hearly : early.skipGap.rest = [] := by rw [h.skipGap_eq, hgap]
    rw [waitingToken_of_gap hgap, nextToken_of_gap hearly, h.skipGap_eq]
    exact ⟨rfl, .refl _⟩
  | cons c cs =>
    have hearly : early.skipGap.rest = c :: cs := by rw [h.skipGap_eq, hgap]
    rw [waitingToken_of_lexeme hgap, nextToken_of_lexeme hearly, h.skipGap_eq]
    exact ⟨rfl, aheadOf_skipTrailing _⟩

/-- Both notice the end at the same time. -/
theorem next?_eq (h : early.AheadOf late) :
    early.next?.1 = late.waitingNext?.1 ∧ early.next?.2.AheadOf late.waitingNext?.2 := by
  obtain ⟨htoken, hahead⟩ := h.token_eq
  simp only [next?, waitingNext?, h.ended_eq, htoken]
  split
  · exact ⟨rfl, h⟩
  · split
    · exact ⟨rfl, hahead.exists_gap, rfl⟩
    · exact ⟨rfl, hahead⟩

/-- So they have the same tokens left. -/
theorem drain_eq (h : early.AheadOf late) :
    early.drain.1 = late.waitingDrain.1 ∧ early.drain.2.AheadOf late.waitingDrain.2 := by
  fun_induction waitingDrain late generalizing early with
  | case1 late rest hlate =>
    obtain ⟨hfound, hahead⟩ := h.next?_eq
    rw [hlate] at hfound hahead
    have hearly : early.next? = (none, early.next?.2) := Prod.ext hfound rfl
    rw [drain_of_next?_eq_none hearly]
    exact ⟨rfl, hahead⟩
  | case2 late t rest hlate _ ih =>
    obtain ⟨hfound, hahead⟩ := h.next?_eq
    rw [hlate] at hfound hahead
    have hearly : early.next? = (some t, early.next?.2) := Prod.ext hfound rfl
    rw [drain_of_next?_eq_some hearly]
    exact ⟨congrArg (t :: ·) (ih hahead).1, (ih hahead).2⟩

/-- Whichever way they are asked, both give the same answers, and stay in the same gap. -/
theorem pull_eq (h : early.AheadOf late) (p : Pull) :
    (early.pull p).1 = (late.waitingPull p).1 ∧
      (early.pull p).2.AheadOf (late.waitingPull p).2 := by
  cases p with
  | token => exact ⟨by rw [pull, waitingPull, h.token_eq.1], h.token_eq.2⟩
  | next => exact ⟨by rw [pull, waitingPull, h.next?_eq.1], h.next?_eq.2⟩
  | rest => exact ⟨by rw [pull, waitingPull, h.drain_eq.1], h.drain_eq.2⟩

/-- However often they are asked, nobody can tell which of them has waited. -/
theorem answers_eq (h : early.AheadOf late) (ps : List Pull) :
    early.answers ps = late.waitingAnswers ps := by
  induction ps generalizing early late with
  | nil => rfl
  | cons p ps ih =>
    obtain ⟨hanswers, hahead⟩ := h.pull_eq p
    rw [answers, waitingAnswers, hanswers, ih hahead]

end AheadOf

/-- Passing over blanks and comments behind a token, before the next one is asked for, makes no
difference: to any pulls on the lexer of a text the lexer that waits gives the same answers, with
the same tokens in the same places and the same end token. -/
theorem answers_eq_waitingAnswers (text : List Char) (file : String) (ps : List Pull) :
    (ofText text file).answers ps = (ofText text file).waitingAnswers ps :=
  (AheadOf.refl (ofText text file)).answers_eq ps

/-- Behind the first token one of them stands at the end of the line, and the other has waited. -/
example : (ofText "a # b\nc".toList "here").nextToken.2.place = ⟨"here", 1, 6⟩ ∧
    (ofText "a # b\nc".toList "here").waitingToken.2.place = ⟨"here", 1, 2⟩ := by
  decide +kernel

end Lexer
end CircuitText

