import CircuitText.Proofs.Faults.Expression
import CircuitText.Proofs.Parsing.Delay

/-!
# Statements keep their course

A statement is followed word by word.  What may follow its first word is known from the rules, and
where the production looks ahead to choose between two ways to go on, the word it sees rules out one
of the two.  The unit behind the number of a delay depends on that number; a number which no unit
makes a delay of is refused itself, so that a unit is possible behind every number that is not.

* `course_delay` --- delays;
* `course_pipeFrom`, `course_groupOrPipe`, `course_call`, `course_pipeFromBracket`,
  `course_clockOver` --- the sorts of statement;
* `course_statementOver`, `course_block` --- statements and blocks.
-/

namespace CircuitText
namespace Grammar

open Prospect

variable {s t u : State} {K L M : Prospect}

/-! ## Delays -/

/-- What may follow the number of a delay. -/
theorem allows_period_cons {w : Word} {ws : List Word} :
    (before IsPeriod K).allows (w :: ws) ↔ w.kind = .number ∧
      ∃ unit rest, ws = unit :: rest ∧ (unit.kind = .ident ∧
        ∃ d, Delay.IsWritten w.literal unit.literal d) ∧ K.allows rest := by
  constructor
  · rintro ⟨_, d, rest, heq, ⟨n, u, rfl, hd⟩, hrest⟩
    obtain ⟨rfl, rfl⟩ := List.cons.inj heq
    exact ⟨rfl, _, rest, rfl, ⟨rfl, d, hd⟩, hrest⟩
  · obtain ⟨k, l⟩ := w
    rintro ⟨rfl, ⟨k', u⟩, rest, rfl, ⟨rfl, d, hd⟩, hrest⟩
    exact ⟨[_, _], d, rest, rfl, ⟨l, u, rfl, hd⟩, hrest⟩

/-- Nanoseconds are a unit for every amount. -/
theorem exists_isWritten {number : String} {n : Nat}
    (h : Delay.amount number.toList = .ok n) : ∃ d, Delay.IsWritten number "ns" d := by
  obtain ⟨hamount, hlt⟩ := Delay.amount_eq_ok_iff.mp h
  obtain ⟨d, hd⟩ := Option.isSome_iff_exists.mp
    (Delay.isSome_of? (u := .nanosecond) hlt (by decide))
  exact ⟨d, n, .nanosecond, hamount, hlt, by decide, rfl, Delay.of?_eq_some_iff.mp hd⟩

theorem course_delay (hs : s.ahead.kind = .number) :
    Course delay s.advance s (before IsPeriod K) (EndsAt K) := by
  refine course_current_bind ?_
  rw [current_advance]
  split
  · exact course_fail (.inr rfl) (by simp [Cause.category])
  · rename_i n hn
    refine course_ahead_bind (.since (leaves_step (M := next
      (fun w => w.kind = .ident ∧ ∃ d, Delay.IsWritten s.ahead.literal w.literal d)
      ⟨⟨.ident, "ns"⟩, rfl, exists_isWritten hn⟩ K) (by simp [hs]) fun ws => ?_) ?_)
    · rw [allows_period_cons, Token.kind_word, and_iff_right hs]
      constructor
      · rintro ⟨unit, rest, rfl, hunit, hrest⟩
        exact ⟨hunit, hrest⟩
      · cases ws with
        | nil => exact False.elim
        | cons unit rest => exact fun h => ⟨unit, rest, rfl, h⟩
    · -- A word that is no unit is refused for its meaning, even if it is no name at all.
      split
      · exact course_fail (.inl rfl) (by simp [Cause.category])
      · rename_i hk
        have hk : s.advance.ahead.kind = .ident := Decidable.not_not.mp hk
        refine course_advance_bind ?_
        split
        · exact course_fail (.inr rfl) (by simp [Cause.category])
        · rename_i u hu
          split
          · exact course_fail (.inr rfl) (by simp [Cause.category])
          · rename_i d hd
            obtain ⟨hamount, hlt⟩ := Delay.amount_eq_ok_iff.mp hn
            obtain ⟨hwritten, hsymbol⟩ := TimeUnit.ofSymbol?_eq_some_iff.mp hu
            refine .since (leaves_step (by simp [hk]) fun ws => ?_) (course_pure ⟨rfl, rfl⟩)
            exact and_iff_right ⟨hk, d, n, u, hamount, hlt, hwritten, hsymbol,
              Delay.of?_eq_some_iff.mp hd⟩

/-! ## Pipes -/

theorem course_pipeOutputs : Course pipeOutputs s s (before IsOutputs K) (EndsAt K) := by
  have hparameter : (before IsParameter K).Avoids .leftParen :=
    avoids_isParameter (by simp) (by simp)
  rw [before_isOutputs, before_bracketed]
  refine course_ifAhead (fun hopen => ?_) fun hopen => ?_
  · exact course_advance_bind (.since ((leaves_right hopen hparameter).trans
      (leaves_word hopen (by simp))) (course_list courseItem_parameter))
  · refine course_advance_bind (.since (leaves_left_of_ne hopen) (course_bind course_parameter ?_))
    rintro p u t M - ⟨rfl, rfl⟩
    exact course_pure ⟨rfl, rfl⟩

theorem course_pipeFrom (inputs : List Expression) :
    Course (pipeFrom inputs) s s (outlet K) (EndsAt K) := by
  refine course_expect_bind (by simp) fun _ => course_bind course_pipeOutputs ?_
  rintro outputs u t M - ⟨rfl, rfl⟩
  exact course_expect_bind (by simp) fun _ => course_pure ⟨rfl, rfl⟩

theorem avoids_outlet {k : Kind} (hk : Kind.arrow ≠ k) : (outlet K).Avoids k := avoids_word hk

theorem course_pipe : Course pipe s.advance s (before AnyExpression (outlet K)) (EndsAt K) := by
  refine course_bind (course_expression (avoids_outlet (by simp))) ?_
  rintro e u t M - ⟨rfl, rfl⟩
  exact course_pipeFrom [e]

/-- The rest of a pipe behind its first operand. -/
theorem course_pipeTail (left : Expression) :
    Course (do pipeFrom [← expressionTail left]) s s (tail (outlet K)) (EndsAt K) := by
  refine course_bind (course_expressionTail left (avoids_outlet (by simp))) ?_
  rintro e u t M - ⟨rfl, rfl⟩
  exact course_pipeFrom [e]

/-- A pipe whose first operand is a register that has been passed already. -/
theorem course_pipe_register (hs : s.current.kind = .ident) :
    Course pipe s s (tail (outlet K)) (EndsAt K) := by
  refine course_bind (Q := EndsAt (outlet K)) ?_ ?_
  · rw [expression_eq, expressionOver]
    refine course_bind (Q := fun _ u t M => u = s ∧ t = s ∧ M = tail (outlet K)) ?_ ?_
    · refine course_current_bind ?_
      rw [hs]
      exact course_pure ⟨rfl, rfl, rfl⟩
    · rintro left u t M - ⟨rfl, rfl, rfl⟩
      exact course_expressionTail left (avoids_outlet (by simp))
  · rintro e u t M - ⟨rfl, rfl⟩
    exact course_pipeFrom [e]

/-- Behind an operand there is no opening bracket. -/
theorem avoids_tail_outlet : (tail (outlet K)).Avoids .leftParen :=
  Avoids.or (avoids_outlet (by simp)) (avoids_word (by simp))

theorem course_groupOrPipe :
    Course groupOrPipe s s (word .ident ((word .leftParen (before (Items IsParameter)
      (word .rightParen (word .semicolon K)))).or (tail (outlet K)))) (EndsAt K) := by
  refine course_expectName_bind (course_ifAhead (fun hopen => ?_) fun hopen => ?_)
  · refine course_advance_bind (.since ((leaves_left hopen avoids_tail_outlet).trans
      (leaves_word hopen (by simp))) (course_bind (course_list courseItem_parameter) ?_))
    rintro members u t M - ⟨rfl, rfl⟩
    exact course_expect_bind (by simp) fun _ => course_pure ⟨rfl, rfl⟩
  · exact .since (leaves_right_of_ne hopen) (course_pipeTail _)

theorem course_pipeFromBracket :
    Course pipeFromBracket s s ((before (Items AnyExpression) (word .rightParen (outlet K))).or
      (before AnyExpression (word .rightParen (tail (outlet K))))) (EndsAt K) := by
  refine course_bind (course_listWithComma courseItem_expression fun ws => .inl) ?_
  rintro found u t M - ⟨rfl, ⟨⟨first, rfl⟩, rfl⟩ | ⟨hne, rfl⟩⟩
  · refine course_ifAhead (fun _ => course_pipeTail first) fun hinfix => ?_
    exact .since (leaves_left_of_ne hinfix) (course_pipeFrom [first])
  · split
    · exact absurd rfl (hne _)
    · exact course_pipeFrom _

/-! ## Calls -/

theorem course_callOutputs (hK : K.Avoids .arrow) :
    Course callOutputs s s (before IsCallOutputs K) (EndsAt K) := by
  rw [before_isCallOutputs, before_bracketed]
  refine course_ifAhead (fun harrow => ?_) fun harrow => ?_
  · exact course_advance_bind (.since ((leaves_right harrow hK).trans
      (leaves_word harrow (by simp)))
      (course_expect_bind (by simp) fun _ => course_list courseItem_parameter))
  · exact .since (leaves_left_of_ne harrow) (course_pure ⟨rfl, rfl⟩)

theorem course_call (hs : s.ahead.kind = .leftParen) :
    Course call s s (word .leftParen (before (Items AnyExpression) (word .rightParen
      (before IsCallOutputs (word .semicolon K))))) (EndsAt K) := by
  refine course_current_bind (course_advance_bind (.since (leaves_word hs (by simp))
    (course_bind (course_list courseItem_expression) ?_)))
  rintro inputs u t M - ⟨rfl, rfl⟩
  refine course_bind (course_callOutputs (avoids_word (by simp))) ?_
  rintro outputs u t M - ⟨rfl, rfl⟩
  exact course_expect_bind (by simp) fun _ => course_pure ⟨rfl, rfl⟩

/-! ## Clocks and blocks -/

/-- With `n` levels left, blocks keep their course. -/
def CourseBlocks (n : Nat) : Prop := ∀ {s K}, s.levels = n →
  Course block s s (before AnyBlock (word .rightBrace K)) (EndsAt K)

theorem course_counter (hK : K.Avoids .percent) :
    Course counter s s (before IsCounter K) (EndsAt K) := by
  rw [before_isCounter]
  refine course_ifAhead (fun hpercent => ?_) fun hpercent => ?_
  · exact course_advance_bind (.since ((leaves_right hpercent hK).trans
      (leaves_word hpercent (by simp))) (course_expectName_bind (course_pure ⟨rfl, rfl⟩)))
  · exact .since (leaves_left_of_ne hpercent) (course_pure ⟨rfl, rfl⟩)

theorem course_clockOver (ih : ∀ n < s.levels, CourseBlocks n) :
    Course (clockOver block) s s (before IsPeriod (before IsCounter
      (word .leftBrace (before AnyBlock (word .rightBrace K))))) (EndsAt K) := by
  refine course_expect_bind_of (fun hne ws h => hne (allows_period_cons.mp h).1) fun hnumber =>
    course_bind (course_delay hnumber) ?_
  rintro period u t M hperiod ⟨rfl, rfl⟩
  refine course_bind (course_counter (avoids_word (by simp))) ?_
  rintro rounds u t M hcounter ⟨rfl, rfl⟩
  refine course_expect_bind (by simp) fun _ =>
    course_bind (course_nested (Q := EndsAt K) (.inl rfl) fun hdepth => ?_) ?_
  · have hlevels : u.advance.deeper.levels < s.levels := by
      have h := levels_deeper_lt hdepth
      rwa [levels_advance, hcounter.levels, hperiod.levels] at h
    refine (ih _ hlevels rfl).imp ?_
    rintro b u t M - ⟨rfl, rfl⟩
    exact ⟨rfl, rfl⟩
  · rintro b u t M - ⟨rfl, rfl⟩
    exact course_pure ⟨rfl, rfl⟩

/-- An expression with an outlet behind it is a statement. -/
theorem allows_statement_of_pipe {ws : List Word}
    (h : (before AnyExpression (outlet K)).allows ws) : (before AnyStatement K).allows ws := by
  cases ws with
  | nil =>
    obtain ⟨vs, e, rest, heq, ⟨n, hvs⟩, -⟩ := h
    obtain ⟨w, vs, rfl, -⟩ := exists_first_of_isExpression hvs
    simp at heq
  | cons w ws =>
    rw [allows_statement_cons]
    split
    · rename_i hk
      rw [allows_expression_cons, hk] at h
      rw [word_or]
      exact .inr h
    · rename_i hk
      simp [allows_expression_cons, hk] at h
    · rename_i hk
      rw [allows_expression_cons, hk] at h
      exact .inr h
    · exact h
    · exact h
    · rename_i hk
      rw [allows_expression_cons, hk] at h
      exact .inr h
    · rw [allows_expression_cons] at h
      split at h <;> simp_all

theorem course_statementOver (ih : ∀ n < s.levels, CourseBlocks n) :
    Course (statementOver block) s.advance s (before AnyStatement K) (EndsAt K) := by
  have hpipe (hs : s.ahead.kind = .number ∨ s.ahead.kind = .prefixOp) :
      Leaves s (before AnyStatement K) s (before AnyExpression (outlet K)) := by
    refine leaves_restrict (fun _ => allows_statement_of_pipe) fun ws hws => ?_
    rw [allows_statement_cons, Token.kind_word] at hws
    rcases hs with hk | hk
    · rwa [hk] at hws
    · rwa [hk] at hws
  refine course_current_bind ?_
  rw [current_advance]
  split
  · rename_i hk
    refine .since (leaves_step (by simp [hk]) fun ws => ?_) course_groupOrPipe
    simp only [allows_statement_cons, Token.kind_word, hk]
  · rename_i hk
    refine .since (leaves_step (by simp [hk]) fun ws => ?_)
      (course_clockOver (by rwa [levels_advance]))
    simp only [allows_statement_cons, Token.kind_word, hk]
  · rename_i hk
    refine .since (leaves_step (M := (word .leftParen (before (Items AnyExpression)
      (word .rightParen (before IsCallOutputs (word .semicolon K))))).or (tail (outlet K)))
      (by simp [hk]) fun ws => ?_) ?_
    · simp only [allows_statement_cons, Token.kind_word, hk]
    · refine course_ifAhead (fun hopen => ?_) fun hopen => ?_
      · exact .since (leaves_left hopen avoids_tail_outlet) (course_call hopen)
      · exact .since (leaves_right_of_ne hopen) (course_pipe_register (by simp [hk]))
  · exact .since (hpipe (.inl ‹_›)) course_pipe
  · exact .since (hpipe (.inr ‹_›)) course_pipe
  · rename_i hk
    refine .since (leaves_step (by simp [hk]) fun ws => ?_) course_pipeFromBracket
    simp only [allows_statement_cons, Token.kind_word, hk]
  · refine course_fail (.inr rfl) fun _ => ⟨rfl, fun ws h => ?_⟩
    rw [allows_statement_cons] at h
    split at h <;> simp_all

/-- A block is over, or another statement comes. -/
theorem allows_anyBlock {ws : List Word} :
    (before AnyBlock K).allows ws ↔
      K.allows ws ∨ (before AnyStatement (before AnyBlock K)).allows ws := by
  have h : before AnyBlock K = before (Many AnyStatement) K := by
    ext ws
    simp only [allows_before, anyBlock_iff]
  rw [h]
  exact iff_of_eq (congrArg (·.allows ws) before_many)

/-- A statement does not begin with what ends a block. -/
theorem goesOn_of_allows_statement {w : Word} {ws : List Word}
    (h : (before AnyStatement K).allows (w :: ws)) : goesOn w.kind = true := by
  rw [allows_statement_cons] at h
  split at h <;> simp_all [goesOn]

theorem courseBlocks (n : Nat) : CourseBlocks n := by
  induction n using Nat.strongRecOn with
  | ind n ih =>
    rintro s K rfl
    rw [block_eq, blockOver]
    refine course_bind (course_whileAhead (n := s.levels)
      (I := fun _ M => M = before AnyBlock (word .rightBrace K)) ?_ rfl rfl) ?_
    · rintro t M hlevels rfl hahead
      have hclose : t.ahead.kind ≠ .rightBrace := fun hk => by simp [hk, goesOn] at hahead
      refine .since (leaves_restrict (fun ws hws => allows_anyBlock.mpr (.inr hws))
        fun ws hws => ?_) (course_statementOver (by rw [hlevels]; exact ih))
      exact (allows_anyBlock.mp hws).resolve_left fun hend => hclose hend.1
    · rintro statements u t M - ⟨rfl, rfl, hahead⟩
      refine .since (leaves_restrict (fun ws hws => allows_anyBlock.mpr (.inl hws))
        fun ws hws => ?_) (course_expect_bind (by simp) fun _ => course_pure ⟨rfl, rfl⟩)
      refine (allows_anyBlock.mp hws).resolve_right fun h => ?_
      exact absurd (goesOn_of_allows_statement h) (by simp [hahead])

/-- A block keeps its course. -/
theorem course_block : Course block s s (before AnyBlock (word .rightBrace K)) (EndsAt K) :=
  courseBlocks _ rfl

end Grammar
end CircuitText
