import CircuitText.Proofs.Faults.Statement
import CircuitText.Proofs.Lexing.Drain
import CircuitText.Proofs.Parsing.Program

/-!
# A fault of structure is the first word that cannot stand there

Programs keep their course, so that reading stops at the first word with which no program can go on:
the words before it begin a program, and with it they do not.  The nesting limit is left out of
account here.  A text that is refused because it is nested too deep may well begin a program, but it
is not refused for its structure.

* `course_item`, `course_program` --- items and programs;
* `State.incoming` --- the tokens that are still to come, the end token included;
* `exists_stop` --- where reading a text may stop;
* `Viable`, `exists_first_impossible` --- the token that a fault of structure blames.
-/

namespace CircuitText
namespace Grammar

open Prospect

variable {s t u : State} {K L M : Prospect}

/-! ## Items -/

theorem course_registers (hK : K.Avoids .leftParen) :
    Course registers s s (before IsRegisters K) (EndsAt K) := by
  rw [before_isRegisters, before_bracketed, before_bracketed]
  refine course_ifAhead (fun hopen => ?_) fun hopen => ?_
  · refine course_advance_bind (.since ((leaves_right hopen hK).trans
      (leaves_word hopen (by simp))) (course_bind (course_list courseItem_registerName) ?_))
    rintro inputs u t M - ⟨rfl, rfl⟩
    refine course_expect_bind (by simp) fun _ => course_expect_bind (by simp) fun _ =>
      course_bind (course_list courseItem_registerName) ?_
    rintro outputs u t M - ⟨rfl, rfl⟩
    exact course_pure ⟨rfl, rfl⟩
  · exact .since (leaves_left_of_ne hopen) (course_pure ⟨rfl, rfl⟩)

theorem course_circuit :
    Course circuit s s (word .ident (before IsRegisters
      (word .leftBrace (before AnyBlock (word .rightBrace K))))) (EndsAt K) := by
  refine course_expectName_bind (course_bind (course_registers (avoids_word (by simp))) ?_)
  rintro ⟨inputs, outputs⟩ u t M - ⟨rfl, rfl⟩
  refine course_expect_bind (by simp) fun _ => course_bind course_block ?_
  rintro body u t M - ⟨rfl, rfl⟩
  exact course_pure ⟨rfl, rfl⟩

theorem course_inclusion :
    Course inclusion s s ((word .string (word .semicolon K)).or
      (word .name (word .string (word .semicolon K)))) (EndsAt K) := by
  refine course_bind (Q := EndsAt (word .string (word .semicolon K))) ?_ ?_
  · refine course_ifAhead (fun hname => ?_) fun hname => ?_
    · exact course_advance_bind (.since ((leaves_right hname (avoids_word (by simp))).trans
        (leaves_word hname (by simp))) (course_pure ⟨rfl, rfl⟩))
    · exact .since (leaves_left_of_ne hname) (course_pure ⟨rfl, rfl⟩)
  · rintro byName u t M - ⟨rfl, rfl⟩
    exact course_expect_bind (by simp) fun _ => course_current_bind
      (course_expect_bind (by simp) fun _ => course_pure ⟨rfl, rfl⟩)

/-- The production has taken the word behind what it reads, and `K` is what may come from there. -/
def EndsBehind (K : Prospect) {α : Type} : α → State → State → Prospect → Prop :=
  fun _ u t M => u = t.advance ∧ M = K

theorem course_item : Course item s.advance s (before AnyItem K) (EndsBehind K) := by
  refine course_current_bind ?_
  rw [current_advance]
  split
  · rename_i hk
    refine .since (leaves_step (by simp [hk]) fun ws => ?_)
      (course_bind (course_circuit (K := K)) ?_)
    · simp only [allows_item_cons, Token.kind_word, hk]
    · rintro c u t M - ⟨rfl, rfl⟩
      exact course_advance_bind (course_pure ⟨rfl, rfl⟩)
  · rename_i hk
    refine .since (leaves_step (by simp [hk]) fun ws => ?_)
      (course_bind (course_inclusion (K := K)) ?_)
    · simp only [allows_item_cons, Token.kind_word, hk]
    · rintro i u t M - ⟨rfl, rfl⟩
      exact course_advance_bind (course_pure ⟨rfl, rfl⟩)
  · refine course_fail (.inr rfl) fun _ => ⟨rfl, fun ws h => ?_⟩
    rw [allows_item_cons] at h
    split at h <;> simp_all

/-! ## Programs -/

/-- What may come after the name of a program. -/
def items : Prospect := before (Many AnyItem) finish

theorem allows_items {ws : List Word} :
    items.allows ws ↔ ws = [endWord] ∨ (before AnyItem items).allows ws :=
  iff_of_eq (congrArg (·.allows ws) before_many)

/-- The name of a program stands before its items only. -/
theorem avoids_items : items.Avoids .name := by
  intro w ws h
  rcases allows_items.mp h with h | h
  · obtain ⟨rfl, -⟩ := List.cons.inj h
    decide
  · rw [allows_item_cons] at h
    split at h <;> simp_all

theorem course_programName (hK : K.Avoids .name) :
    Course programName s.advance s (before IsProgramName K) (EndsBehind K) := by
  rw [before_isProgramName]
  refine course_current_bind ?_
  rw [current_advance]
  split
  · -- Both ways end with the first token of the items in `current`.
    rename_i hk
    exact .since ((leaves_right hk hK).trans (leaves_word hk (by simp)))
      (course_expect_bind (by simp) fun _ => course_expect_bind (by simp) fun _ =>
        course_current_bind (course_expect_bind (by simp) fun _ =>
          course_advance_bind (course_pure ⟨rfl, rfl⟩)))
  · rename_i hk
    exact .since (leaves_left_of_ne hk) (course_pure ⟨rfl, rfl⟩)

/-- Reading a program stops, if it stops, at the first word with which no program goes on. -/
theorem course_program : Course program s.advance s sentences fun _ _ _ _ => True := by
  have hsentences : sentences = before IsProgramName items := by
    ext ws
    exact allows_sentence.symm
  rw [hsentences]
  refine course_bind (course_programName avoids_items) ?_
  rintro name u t M - ⟨rfl, rfl⟩
  refine course_bind (course_untilEnd (n := t.levels) _ (fun v _ hend => ?_) rfl) ?_
  · refine .since (leaves_restrict (fun ws hws => allows_items.mpr (.inr hws)) fun ws hws => ?_)
      course_item
    refine (allows_items.mp hws).resolve_left fun h => hend ?_
    exact congrArg Word.kind (List.cons.inj h).1
  · intro is u t M _ _
    exact course_pure trivial

/-! ## Tokens to come -/

namespace State

/-- The tokens that are still to come, the end token included. -/
def incoming (s : State) : List Token :=
  if s.ahead.kind = .endOfText then [s.ahead]
  else s.ahead :: (s.supply.upcoming ++ [.endOfText s.supply.finish])

/-- The token ahead comes first. -/
theorem exists_incoming (s : State) : ∃ more, s.incoming = s.ahead :: more := by
  unfold incoming
  split
  · exact ⟨_, rfl⟩
  · exact ⟨_, rfl⟩

theorem incoming_of_ne_end (hs : s.Regular) (h : s.ahead.kind ≠ .endOfText) :
    s.incoming = s.ahead :: s.advance.incoming := by
  rw [incoming, incoming, if_neg h, ahead_advance, supply_advance]
  cases hupcoming : s.supply.upcoming with
  | nil => simp [Supply.next_of_nil hupcoming, Token.endOfText]
  | cons k ks =>
    have hk : k.kind ≠ .endOfText := hs.1 k (by simp [hupcoming])
    simp [Supply.next_of_cons hupcoming, hk]

end State

/-- The words that are passed are those of the tokens that come before the others. -/
theorem exists_incoming_of_passes {ws : List Word} (hs : s.Regular) (h : Passes s ws t) :
    ∃ passed, s.incoming = passed ++ t.incoming ∧ passed.map (·.word) = ws := by
  induction ws generalizing s with
  | nil =>
    obtain rfl := passes_nil.mp h
    exact ⟨[], rfl, rfl⟩
  | cons w ws ih =>
    obtain ⟨hend, rfl, hpass⟩ := passes_cons.mp h
    obtain ⟨passed, hincoming, rfl⟩ := ih hs.advance hpass
    exact ⟨s.ahead :: passed, by rw [State.incoming_of_ne_end hs hend, hincoming]; rfl, rfl⟩

/-- Before the first token all tokens are to come. -/
theorem State.incoming_beforeFirst {supply : Supply}
    (h : ∀ k ∈ supply.upcoming, k.kind ≠ .endOfText) :
    (beforeFirst supply).incoming = supply.upcoming ++ [.endOfText supply.finish] := by
  rw [incoming, ahead_beforeFirst, supply_beforeFirst]
  cases hs : supply.upcoming with
  | nil => simp [Supply.next_of_nil hs, Token.endOfText]
  | cons k ks =>
    have hk : k.kind ≠ .endOfText := h k (by simp [hs])
    simp [Supply.next_of_cons hs, hk]

theorem incoming_ofLexer {l : Lexer} (hended : l.ended = false) :
    (State.beforeFirst (.ofLexer l)).incoming = l.stream := by
  obtain ⟨place, hplace⟩ := Lexer.exists_end hended
  rw [State.incoming_beforeFirst (Lexer.kind_ne_endOfText_of_mem_drain hended), Lexer.stream,
    hplace, Supply.ofLexer, hplace]
  rfl

/-! ## Texts -/

/-- Reading a text from its beginning does not succeed with a fault noted. -/
theorem parse_start_of_ok {supply : Supply} (h : ∀ k ∈ supply.upcoming, k.kind ≠ .endOfText)
    {p : Program} (hok : (program (State.start supply)).result = .ok p) :
    (State.start supply).parse.1 = .ok p := by
  have hreads : Reads program (State.start supply) p _ := ⟨hok, rfl⟩
  rw [State.start_eq, reads_program] at hreads
  obtain ⟨t, ⟨ws, hprogram, hpass⟩, hend, -⟩ := hreads
  rw [passes_unread.mp ⟨t, hpass, hend⟩, State.unread_beforeFirst h,
    State.levels_beforeFirst] at hprogram
  exact (parse_start_eq_ok_iff h).mpr hprogram

/-- Where reading a text may stop: the answer is a fault that was noted last, and what was read
before it leaves a prospect. -/
theorem exists_stop {supply : Supply} (h : ∀ k ∈ supply.upcoming, k.kind ≠ .endOfText) {f : Fault}
    (hfail : (State.start supply).parse.1 = .error f) :
    ∃ g t M, Leaves (State.beforeFirst supply) sentences t M ∧
      Stopped t M g (State.start supply).parse.2 := by
  have hcourse := course_program (s := State.beforeFirst supply)
  rw [← State.start_eq] at hcourse
  unfold Course at hcourse
  generalize ho : program (State.start supply) = o at hcourse
  have hafter : (State.start supply).parse.2 = o.after := by
    unfold State.parse
    rw [ho]
    dsimp only
    split <;> rfl
  cases hcourse with
  | @ok p u t M le leaves holds =>
    rw [parse_start_of_ok h (p := p) (by rw [ho])] at hfail
    simp at hfail
  | @error g u t M le leaves stopped =>
    rw [hafter]
    exact ⟨g, t, M, leaves, stopped⟩

/-- With more words behind them these words are a program, however deep, up to the end of the
text. -/
def Viable (ws : List Word) : Prop := ∃ rest, Sentence (ws ++ rest)

/-- When a text is refused and the fault that was noted last is one of structure, it blames a token
of the text such that the tokens before it begin a program and with it they begin none. -/
theorem exists_first_impossible (text : List Char) (file : String) (first last : Fault)
    (hfail : (State.start (.ofLexer (.ofText text file))).parse.1 = .error first)
    (hlast : (State.start (.ofLexer (.ofText text file))).parse.2.faults.getLast? = some last)
    (hstructural : last.cause.category = .structural) :
    ∃ passed t more, (Lexer.ofText text file).stream = passed ++ t :: more ∧
      last.span = t.span ∧ Viable (passed.map (·.word)) ∧
        ¬ Viable ((passed ++ [t]).map (·.word)) := by
  have hkinds := Lexer.kind_ne_endOfText_of_mem_drain (l := .ofText text file) rfl
  obtain ⟨g, t, M, ⟨ws, hpass, hM, hsentences⟩, hstop⟩ := exists_stop hkinds hfail
  have hg : g = last := by
    rcases hstop.place with h | h <;> rw [h] at hlast <;> simpa [State.note] using hlast
  obtain ⟨hspan, hblame⟩ := hstop.blame (hg ▸ hstructural)
  obtain ⟨passed, hincoming, rfl⟩ :=
    exists_incoming_of_passes (State.regular_beforeFirst hkinds) hpass
  obtain ⟨more, hmore⟩ := t.exists_incoming
  refine ⟨passed, t.ahead, more, ?_, hg ▸ hspan, ?_, ?_⟩
  · rw [← incoming_ofLexer rfl, hincoming, hmore]
  · obtain ⟨rest, hrest⟩ := M.exists_allowed
    exact ⟨rest, hM rest hrest⟩
  · rintro ⟨rest, hrest⟩
    rw [List.map_append, List.append_assoc] at hrest
    exact hblame rest (hsentences rest hrest)

/-- A list with a comma in it is no operand, so that no operator can follow it. -/
theorem exists_first_impossible_operator :
    let text := "circuit main \x7b clock 5 ns \x7b (a,) & b -> c; \x7d \x7d".toList
    let answer := (State.start (.ofLexer (.ofText text "here"))).parse
    let fault : Fault := ⟨.expected .arrow .infixOp, .point ⟨"here", 1, 34⟩⟩
    answer.1 = .error fault ∧ answer.2.faults.getLast? = some fault ∧
      fault.cause.category = .structural ∧
      ∃ passed t more, (Lexer.ofText text "here").stream = passed ++ t :: more ∧
        fault.span = t.span ∧ Viable (passed.map (·.word)) ∧
          ¬ Viable ((passed ++ [t]).map (·.word)) := by
  intro text answer fault
  have hfail : answer.1 = .error fault := (Program.sameReading_iff _ _).mp (by decide +kernel)
  have hlast : answer.2.faults.getLast? = some fault := by decide +kernel
  exact ⟨hfail, hlast, rfl, exists_first_impossible text "here" fault fault hfail hlast rfl⟩

end Grammar
end CircuitText
