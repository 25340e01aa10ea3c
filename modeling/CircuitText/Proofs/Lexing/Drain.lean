import CircuitText.Token.Lexer

/-!
# The tokens of a text, one after the other

A lexer that has not ended gives a token for every lexeme, and none of its tokens is an end token:
no sort of lexeme makes one.  So `drain` ends just where the last gap does, and its equations need
no mention of `next?`.

* `Lexeme.kind_read_ne_endOfText` --- a lexeme is never the end of the text;
* `Lexer.nextToken_of_gap`, `Lexer.nextToken_of_lexeme` --- the equations of `nextToken`;
* `Lexer.drain_of_gap`, `Lexer.drain_of_lexeme` --- the equations of `drain`;
* `Lexer.induction_on_lexemes` --- induction along them;
* `Lexer.kind_ne_endOfText_of_mem_drain` --- no token is an end token;
* `Lexer.stream`, `Lexer.exists_end` --- the tokens with the end token behind them.
-/

namespace CircuitText

namespace Lexeme

/-- A word is an identifier or a keyword. -/
theorem kindOf_word {sort : LexemeSort} (hword : sort.pattern = .word) (text : List Char) :
    sort.kindOf text = sort.kind ∨ sort.kindOf text ∈ Kind.keywords := by
  rw [LexemeSort.kindOf, hword]
  cases h : Kind.ofKeyword? (String.ofList text) with
  | none => exact .inl rfl
  | some k => exact .inr (List.mem_of_find?_eq_some h)

/-- No sort of lexeme makes an end token. -/
theorem kindOf_ne_endOfText {sort : LexemeSort} (h : sort ∈ lexemes) (text : List Char) :
    sort.kindOf text ≠ .endOfText := by
  have hkind : ∀ sort ∈ lexemes, sort.kind ≠ .endOfText := by decide
  by_cases hword : sort.pattern = .word
  · rcases kindOf_word hword text with heq | hmem
    · rw [heq]
      exact hkind sort h
    · intro heq
      rw [heq] at hmem
      exact absurd hmem (by decide)
  · have heq : sort.kindOf text = sort.kind := by
      unfold LexemeSort.kindOf
      split
      · exact absurd ‹_› hword
      · rfl
    rw [heq]
    exact hkind sort h

theorem kind_read_ne_endOfText (c : Char) (cs : List Char) : (read c cs).kind ≠ .endOfText := by
  rcases readBy_cases lexemes c cs with ⟨sort, hsort, h⟩ | h
  · obtain ⟨found, -, heq⟩ := Option.map_eq_some_iff.mp h
    rw [read, ← heq]
    exact kindOf_ne_endOfText hsort found.1
  · rw [read, h]
    simp [illegal]

end Lexeme

namespace Lexer

variable {l : Lexer} {c : Char} {cs : List Char}

/-- The token of the lexeme at the front, for a lexer that stands before it. -/
def token (l : Lexer) (c : Char) (cs : List Char) : Token :=
  let found := Lexeme.read c cs
  ⟨found.kind, String.ofList found.literal, ⟨l.place, l.place.ofLast found.text⟩⟩

/-- The lexer behind the lexeme at the front, and behind what trails it. -/
def behind (l : Lexer) (c : Char) (cs : List Char) : Lexer :=
  let found := Lexeme.read c cs
  (l.pass (found.text, found.rest)).skipTrailing

theorem drain_of_next?_eq_none {rest : Lexer} (h : l.next? = (none, rest)) :
    l.drain = ([], rest) := by
  rw [drain]
  split
  · rename_i rest' h'
    rw [h] at h'
    simp only [Prod.mk.injEq, true_and] at h'
    rw [h']
  · rename_i t rest' h'
    simp [h] at h'

theorem drain_of_next?_eq_some {t : Token} {rest : Lexer} (h : l.next? = (some t, rest)) :
    l.drain = (t :: rest.drain.1, rest.drain.2) := by
  rw [drain]
  split
  · rename_i rest' h'
    simp [h] at h'
  · rename_i t' rest' h'
    rw [h] at h'
    simp only [Prod.mk.injEq, Option.some.injEq] at h'
    obtain ⟨rfl, rfl⟩ := h'
    rfl

/-- When only a gap is left the end token is given, behind the gap. -/
theorem nextToken_of_gap (hgap : l.skipGap.rest = []) :
    l.nextToken = (.endOfText l.skipGap.place, l.skipGap) := by
  simp only [nextToken, hgap]

/-- Otherwise the token of the lexeme behind the gap is given. -/
theorem nextToken_of_lexeme (hgap : l.skipGap.rest = c :: cs) :
    l.nextToken = (l.skipGap.token c cs, l.skipGap.behind c cs) := by
  simp only [nextToken, hgap, token, behind]

theorem next?_of_gap (hended : l.ended = false) (hgap : l.skipGap.rest = []) :
    l.next? = (none, { l.skipGap with ended := true }) := by
  simp [next?, hended, nextToken_of_gap hgap, Token.endOfText]

theorem next?_of_lexeme (hended : l.ended = false) (hgap : l.skipGap.rest = c :: cs) :
    l.next? = (some (l.skipGap.token c cs), l.skipGap.behind c cs) := by
  simp [next?, hended, nextToken_of_lexeme hgap, Lexeme.kind_read_ne_endOfText, token]

/-- When only a gap is left there is no token. -/
theorem drain_of_gap (hended : l.ended = false) (hgap : l.skipGap.rest = []) :
    l.drain.1 = [] := by
  rw [drain_of_next?_eq_none (next?_of_gap hended hgap)]

/-- A lexeme behind the gap makes a token. -/
theorem drain_of_lexeme (hended : l.ended = false) (hgap : l.skipGap.rest = c :: cs) :
    l.drain.1 = l.skipGap.token c cs :: (l.skipGap.behind c cs).drain.1 := by
  rw [drain_of_next?_eq_some (next?_of_lexeme hended hgap)]

/-- Behind a lexeme there is less left to read. -/
theorem length_rest_behind_lt (hgap : l.skipGap.rest = c :: cs) :
    (l.skipGap.behind c cs).rest.length < l.rest.length := by
  refine Nat.lt_of_le_of_lt (length_rest_skipTrailing_le _) ?_
  refine Nat.lt_of_lt_of_le (Lexeme.length_rest_readBy_lt lexemes c cs) ?_
  rw [← hgap]
  exact l.length_rest_skipGap_le

/-- What holds when only a gap is left, and before a lexeme if it holds behind it, holds always. -/
theorem induction_on_lexemes {motive : Lexer → Prop}
    (gap : ∀ l : Lexer, l.ended = false → l.skipGap.rest = [] → motive l)
    (lexeme : ∀ (l : Lexer) (c : Char) (cs : List Char), l.ended = false →
      l.skipGap.rest = c :: cs → motive (l.skipGap.behind c cs) → motive l)
    (l : Lexer) (hended : l.ended = false) : motive l := by
  induction hn : l.rest.length using Nat.strongRecOn generalizing l with
  | ind n ih =>
    cases hgap : l.skipGap.rest with
    | nil => exact gap l hended hgap
    | cons c cs =>
      have hlt := length_rest_behind_lt hgap
      exact lexeme l c cs hended hgap (ih _ (hn ▸ hlt) (l.skipGap.behind c cs) hended rfl)

theorem kind_ne_endOfText_of_mem_drain (hended : l.ended = false) :
    ∀ t ∈ l.drain.1, t.kind ≠ .endOfText := by
  refine induction_on_lexemes (motive := fun l => ∀ t ∈ l.drain.1, t.kind ≠ .endOfText)
    (fun l hended hgap => ?_) (fun l c cs hended hgap ih => ?_) l hended
  · simp [drain_of_gap hended hgap]
  · rw [drain_of_lexeme hended hgap]
    exact List.forall_mem_cons.mpr ⟨Lexeme.kind_read_ne_endOfText c cs, ih⟩

/-- The tokens that are left, and the token that the lexer gives behind them. -/
def stream (l : Lexer) : List Token := l.drain.1 ++ [l.drain.2.nextToken.1]

/-- Behind the tokens the lexer gives an end token. -/
theorem exists_end (hended : l.ended = false) :
    ∃ place, l.drain.2.nextToken.1 = .endOfText place := by
  refine induction_on_lexemes (motive := fun l => ∃ place, l.drain.2.nextToken.1 = .endOfText place)
    (fun l hended hgap => ?_) (fun l c cs hended hgap ih => ?_) l hended
  · rw [drain_of_next?_eq_none (next?_of_gap hended hgap)]
    have hnone : ({ l.skipGap with ended := true } : Lexer).skipGap.rest = [] := by
      show (splitGap false l.skipGap.rest).2 = []
      rw [hgap]
      rfl
    exact ⟨_, congrArg Prod.fst (nextToken_of_gap hnone)⟩
  · rw [drain_of_next?_eq_some (next?_of_lexeme hended hgap)]
    exact ih

end Lexer
end CircuitText
