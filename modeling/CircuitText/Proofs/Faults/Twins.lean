import CircuitText.Proofs.Faults.Comparison
import CircuitText.Proofs.Lexing.Drain
import CircuitText.Proofs.Parsing.Program
import Mathlib.Data.List.Forall2

/-!
# Only the words matter

Two texts that have the same words are read alike, however they are laid out and whatever they are
called: they say the same program, or they are at fault in the same way, and then each fault blames
the same word in both.

The two runs are compared token by token.  Which spans belong together is a relation `R`;
productions never look at a span, they only hand it on to a fault, so they keep any such relation.

* `TwinTokens`, `TwinFaults`, `Twins` --- tokens, faults and states that differ in their spans only;
* `twinning` --- the comparison;
* `ReadAlike`, `readAlike_of_words_eq` --- texts with the same words.
-/

namespace CircuitText
namespace Grammar

variable {R : Span → Span → Prop} {s t : State}

/-! ## Tokens, faults and states that differ in their spans only -/

/-- The same word at places that belong together. -/
def TwinTokens (R : Span → Span → Prop) (k l : Token) : Prop := k.word = l.word ∧ R k.span l.span

/-- The same cause at places that belong together. -/
def TwinFaults (R : Span → Span → Prop) (f g : Fault) : Prop := f.cause = g.cause ∧ R f.span g.span

/-- What is still to be read, what has been noted and the depth are the same but for the places. -/
structure TwinsAhead (R : Span → Span → Prop) (s t : State) : Prop where
  ahead : TwinTokens R s.ahead t.ahead
  upcoming : List.Forall₂ (TwinTokens R) s.supply.upcoming t.supply.upcoming
  finish : R (.point s.supply.finish) (.point t.supply.finish)
  faults : List.Forall₂ (TwinFaults R) s.faults t.faults
  depth : s.depth = t.depth

/-- Two states are the same but for the places. -/
structure Twins (R : Span → Span → Prop) (s t : State) : Prop extends TwinsAhead R s t where
  current : TwinTokens R s.current t.current

theorem TwinTokens.kind_eq {k l : Token} (h : TwinTokens R k l) : k.kind = l.kind :=
  congrArg Word.kind h.1

theorem TwinTokens.literal_eq {k l : Token} (h : TwinTokens R k l) : k.literal = l.literal :=
  congrArg Word.literal h.1

theorem TwinTokens.illegal {k l : Token} (h : TwinTokens R k l) :
    TwinFaults R (.illegal k) (.illegal l) :=
  ⟨congrArg Cause.illegal h.literal_eq, h.2⟩

theorem TwinsAhead.note {f g : Fault} (h : TwinsAhead R s t) (hfg : TwinFaults R f g) :
    TwinsAhead R (s.note f) (t.note g) :=
  { h with faults := List.rel_append h.faults (.cons hfg .nil) }

theorem TwinsAhead.noteIllegal (h : TwinsAhead R s t) :
    TwinsAhead R s.noteIllegal t.noteIllegal := by
  unfold State.noteIllegal
  rw [h.ahead.kind_eq]
  split
  · exact h.note h.ahead.illegal
  · exact h

/-- Supplies that are the same but for the places go on so. -/
theorem twins_next {a b : Supply} (hupcoming : List.Forall₂ (TwinTokens R) a.upcoming b.upcoming)
    (hfinish : R (.point a.finish) (.point b.finish)) :
    TwinTokens R a.next.1 b.next.1 ∧
      List.Forall₂ (TwinTokens R) a.next.2.upcoming b.next.2.upcoming ∧
      R (.point a.next.2.finish) (.point b.next.2.finish) := by
  cases ha : a.upcoming with
  | nil =>
    have hb : b.upcoming = [] := by rwa [ha, List.forall₂_nil_left_iff] at hupcoming
    rw [Supply.next_of_nil ha, Supply.next_of_nil hb]
    exact ⟨⟨rfl, hfinish⟩, hupcoming, hfinish⟩
  | cons k ks =>
    rw [ha, List.forall₂_cons_left_iff] at hupcoming
    obtain ⟨l, ls, hkl, hrest, hb⟩ := hupcoming
    rw [Supply.next_of_cons ha, Supply.next_of_cons hb]
    exact ⟨hkl, hrest, hfinish⟩

/-- Moving on takes no notice of the current tokens, so that these may be anything. -/
theorem TwinsAhead.advance (h : TwinsAhead R s t) : Twins R s.advance t.advance := by
  obtain ⟨hahead, hupcoming, hfinish⟩ := twins_next h.upcoming h.finish
  have hnext : TwinsAhead R s.advance t.advance :=
    TwinsAhead.noteIllegal ⟨hahead, hupcoming, hfinish, h.faults, h.depth⟩
  refine ⟨hnext, ?_⟩
  rw [current_advance, current_advance]
  exact h.ahead

/-- Runs on the same words. -/
def twinning (R : Span → Span → Prop) : Comparison where
  tokens := TwinTokens R
  states := Twins R
  stopped f g s t := TwinFaults R f g ∧ TwinsAhead R s t
  kind_eq h := h.kind_eq
  literal_eq h := h.literal_eq
  tokens_current h := h.current
  tokens_ahead h := h.ahead
  states_advance h := h.advance
  depth_eq h := h.depth
  states_deeper h := { h with depth := congrArg (· + 1) h.depth }
  states_shallower h := { h with depth := congrArg (· - 1) h.depth }
  stopped_note h hkl _ := ⟨⟨rfl, hkl.2⟩, h.note ⟨rfl, hkl.2⟩⟩
  stopped_shallower h := ⟨h.1, { h.2 with depth := congrArg (· - 1) h.2.depth }⟩

/-- Answers that are the same but for the places. -/
inductive TwinAnswers (R : Span → Span → Prop) :
    Except Fault Program × State → Except Fault Program × State → Prop
  | ok {p : Program} {s t : State} (faults : List.Forall₂ (TwinFaults R) s.faults t.faults) :
      TwinAnswers R (.ok p, s) (.ok p, t)
  | error {f g : Fault} {s t : State} (fault : TwinFaults R f g)
      (faults : List.Forall₂ (TwinFaults R) s.faults t.faults) :
      TwinAnswers R (.error f, s) (.error g, t)

/-- The first fault that was noted is the answer, in both runs. -/
theorem Twins.parse (h : Twins R s t) : TwinAnswers R s.parse t.parse := by
  have hrun := (twinning R).steady_program s t h
  unfold State.parse
  dsimp only
  generalize program s = o at hrun
  generalize program t = o' at hrun
  have hfaults : List.Forall₂ (TwinFaults R) o.after.faults o'.after.faults := by
    cases hrun with
    | ok value states => exact states.faults
    | error stopped => exact stopped.2.faults
  cases hleft : o.after.faults with
  | nil =>
    have hright : o'.after.faults = [] := by rwa [hleft, List.forall₂_nil_left_iff] at hfaults
    simp only [hright]
    cases hrun with
    | ok value states =>
      obtain rfl := value
      exact .ok hfaults
    | error stopped => exact .error stopped.1 hfaults
  | cons f fs =>
    rw [hleft, List.forall₂_cons_left_iff] at hfaults
    obtain ⟨g, gs, hfg, hrest, hright⟩ := hfaults
    simp only [hright]
    refine .error hfg ?_
    rw [hleft, hright]
    exact .cons hfg hrest

/-! ## Texts -/

/-- The spans of two tokens with the same index, each in its own list. -/
def Opposite (ks ls : List Token) (p q : Span) : Prop :=
  ∃ (i : Nat) (k l : Token), ks[i]? = some k ∧ ls[i]? = some l ∧ p = k.span ∧ q = l.span

/-- Two faults of the same sort and wording, at tokens with the same index. -/
structure FaultsAlike (ks ls : List Token) (f g : Fault) : Prop where
  category : f.cause.category = g.cause.category
  message : f.cause.message = g.cause.message
  spans : Opposite ks ls f.span g.span

/-- Two texts are read alike: either both say the same program, or both are at fault and so often
and in such ways that the faults correspond to each other. -/
def ReadAlike (l l' : Lexer) : Prop :=
  let answer := (State.start (.ofLexer l)).parse
  let answer' := (State.start (.ofLexer l')).parse
  (∃ p, answer.1 = .ok p ∧ answer'.1 = .ok p) ∨
    (∃ f g, answer.1 = .error f ∧ answer'.1 = .error g) ∧
      List.Forall₂ (FaultsAlike l.stream l'.stream) answer.2.faults answer'.2.faults

/-- Tokens of the same words go together by their indices, and whatever stands behind them. -/
theorem twinTokens_of_words_eq {ks ls : List Token} (h : ks.map (·.word) = ls.map (·.word))
    (more more' : List Token) :
    List.Forall₂ (TwinTokens (Opposite (ks ++ more) (ls ++ more'))) ks ls := by
  have hlength : ks.length = ls.length := by simpa using congrArg List.length h
  refine List.forall₂_iff_get.mpr ⟨hlength, fun i hi hi' => ⟨?_, i, _, _, ?_, ?_, rfl, rfl⟩⟩
  · have hword := congrArg (·[i]?) h
    simpa [hi, hi'] using hword
  · simp [List.getElem?_append_left hi]
  · simp [List.getElem?_append_left hi']

/-- The first token of a supply is treated like any other, and what stands before it is not looked
at. -/
theorem twins_start {a b : Supply} (hupcoming : List.Forall₂ (TwinTokens R) a.upcoming b.upcoming)
    (hfinish : R (.point a.finish) (.point b.finish)) : Twins R (.start a) (.start b) := by
  obtain ⟨hahead, hrest, hend⟩ := twins_next hupcoming hfinish
  rw [State.start_eq, State.start_eq]
  exact TwinsAhead.advance (TwinsAhead.noteIllegal ⟨hahead, hrest, hend, .nil, rfl⟩)

theorem twins_ofLexer {l l' : Lexer} (hended : l.ended = false) (hended' : l'.ended = false)
    (h : l.drain.1.map (·.word) = l'.drain.1.map (·.word)) :
    Twins (Opposite l.stream l'.stream) (.start (.ofLexer l)) (.start (.ofLexer l')) := by
  refine twins_start (twinTokens_of_words_eq h _ _) ?_
  obtain ⟨place, hplace⟩ := Lexer.exists_end hended
  obtain ⟨place', hplace'⟩ := Lexer.exists_end hended'
  have hlength : l.drain.1.length = l'.drain.1.length := by simpa using congrArg List.length h
  refine ⟨l.drain.1.length, .endOfText place, .endOfText place', ?_, ?_, ?_, ?_⟩
  · simp [Lexer.stream, hplace]
  · simp [Lexer.stream, hplace', hlength]
  · rw [Supply.ofLexer, hplace]
    rfl
  · rw [Supply.ofLexer, hplace']
    rfl

/-- The layout of a text, its comments and its label decide neither what program it says nor how it
is at fault: two texts with the same words are read alike. -/
theorem readAlike_of_words_eq (text text' : List Char) (file file' : String)
    (h : Lexer.words text file = Lexer.words text' file') :
    ReadAlike (.ofText text file) (.ofText text' file') := by
  have htwins : Twins (Opposite (Lexer.ofText text file).stream (Lexer.ofText text' file').stream)
      (.start (.ofLexer (.ofText text file))) (.start (.ofLexer (.ofText text' file'))) :=
    twins_ofLexer rfl rfl h
  have hanswers := htwins.parse
  unfold ReadAlike
  dsimp only
  generalize (State.start (.ofLexer (.ofText text file))).parse = answer at hanswers
  generalize (State.start (.ofLexer (.ofText text' file'))).parse = answer' at hanswers
  cases hanswers with
  | ok => exact .inl ⟨_, rfl, rfl⟩
  | error _ faults =>
    refine .inr ⟨⟨_, _, rfl, rfl⟩, faults.imp fun f g hfg => ?_⟩
    exact ⟨congrArg Cause.category hfg.1, congrArg Cause.message hfg.1, hfg.2⟩

/-- A text with an illegal character where a parameter should stand, and the same words laid out
otherwise: the illegal character and the missing parameter are noted in both. -/
theorem readAlike_of_words_eq_relaid :
    let text := "circuit main \x7b a -> $; \x7d".toList
    let relaid := "# $ \ncircuit main\x7ba->\n  $;\x7d".toList
    Lexer.words text "here" = Lexer.words relaid "there" ∧
      (State.start (.ofLexer (.ofText text "here"))).parse.2.faults.length = 2 ∧
      ReadAlike (.ofText text "here") (.ofText relaid "there") := by
  intro text relaid
  have h : Lexer.words text "here" = Lexer.words relaid "there" := by decide +kernel
  exact ⟨h, by decide +kernel, readAlike_of_words_eq text relaid "here" "there" h⟩

end Grammar
end CircuitText
