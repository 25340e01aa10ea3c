import CircuitText.Proofs.Faults.Course
import CircuitText.Proofs.Faults.FirstWord

/-!
# Expressions and lists keep their course

Reading an expression stops, if it stops, at the first word that no expression can have there.  The
proof is an induction on the levels that are left: what is nested is read with one level less, and a
construct that would be nested too deep is refused for another reason than its structure.

What must not follow an expression is an infix operator, because the production would go on with it;
`Prospect.Avoids` is the assumption.  In a list the prospect behind an item depends on what came
before: behind a trailing comma only the closing bracket is left, although the loop would look for
another comma.

* `course_operand`, `course_tailOver`, `course_expression` --- expressions;
* `CourseItem`, `course_moreItems`, `course_listWithComma`, `course_list` --- lists;
* `course_registerName`, `course_parameter` --- their items.
-/

namespace CircuitText
namespace Grammar

open Prospect

variable {α : Type} {s t u : State} {K L M : Prospect}

/-! ## Expressions -/

/-- The production ends before the next word, which is no infix operator, and `K` may come. -/
def EndsExpression (K : Prospect) : Expression → State → State → Prospect → Prop :=
  fun _ u t M => u = t ∧ M = K ∧ t.ahead.kind ≠ .infixOp

/-- With `n` levels left, expressions keep their course. -/
def CourseExpressions (n : Nat) : Prop := ∀ {s K}, s.levels = n → K.Avoids .infixOp →
  Course expression s.advance s (before AnyExpression K) (EndsExpression K)

/-- What is left of an expression behind one of its operands: the operand may have been the last one
because it began with a prefix operator. -/
def BehindOperand (K : Prospect) (t : State) (M : Prospect) : Prop :=
  M = tail K ∨ M = K ∧ t.ahead.kind ≠ .infixOp

theorem levels_deeper_lt (h : s.depth < nestingLimit) : s.deeper.levels < s.levels := by
  unfold State.levels State.deeper
  dsimp only
  omega

/-- Behind the first word of something nested there is a level less. -/
theorem levels_deeper_advance_lt (h : s.advance.depth < nestingLimit) :
    s.deeper.advance.levels < s.levels := by
  rw [levels_advance]
  exact levels_deeper_lt (by rwa [depth_advance] at h)

theorem course_operand (ih : ∀ n < s.levels, CourseExpressions n) (hK : K.Avoids .infixOp) :
    Course (operandOver expression) s.advance s (before AnyExpression K)
      fun _ u t M => u = t ∧ BehindOperand K t M := by
  refine course_current_bind ?_
  rw [current_advance]
  split
  · rename_i hk
    refine .since (leaves_step (M := tail K) (by simp [hk]) fun ws => ?_)
      (course_pure ⟨rfl, .inl rfl⟩)
    simp [allows_expression_cons, hk]
  · -- The prospect knows which numbers are bits, but another number is refused for its meaning.
    rename_i hk
    refine course_current_bind ?_
    rw [current_advance]
    have hbit (h : s.ahead.literal = "0" ∨ s.ahead.literal = "1") :
        Leaves s (before AnyExpression K) s.advance (tail K) := by
      refine leaves_step (by simp [hk]) fun ws => ?_
      simp [allows_expression_cons, hk, h]
    split
    · exact (course_pure ⟨rfl, .inl rfl⟩).since (hbit (.inl ‹_›))
    · split
      · exact (course_pure ⟨rfl, .inl rfl⟩).since (hbit (.inr ‹_›))
      · exact course_fail (.inr rfl) (by simp [Cause.category])
  · rename_i hk
    refine course_nested (.inr rfl) fun hdepth => ?_
    rw [← advance_deeper]
    refine course_advance_bind (.since (leaves_step
      (M := before AnyExpression (word .rightParen (tail K))) (by simp [hk]) fun ws => ?_) ?_)
    · simp [allows_expression_cons, hk]
    · refine course_bind (ih _ (levels_deeper_advance_lt hdepth) rfl (avoids_word (by simp))) ?_
      rintro e u t M - ⟨rfl, rfl, -⟩
      exact course_expect_bind (by simp) fun _ => course_pure ⟨rfl, .inl rfl⟩
  · -- The operand of a prefix operator is all that is left of the expression.
    rename_i hk
    refine course_nested (.inr rfl) fun hdepth => ?_
    rw [← advance_deeper]
    refine course_advance_bind (.since (leaves_step (M := before AnyExpression K) (by simp [hk])
      fun ws => ?_) ?_)
    · simp [allows_expression_cons, hk]
    · refine course_bind (ih _ (levels_deeper_advance_lt hdepth) rfl hK) ?_
      rintro e u t M - ⟨rfl, rfl, hahead⟩
      exact course_pure ⟨rfl, .inr ⟨rfl, hahead⟩⟩
  · rename_i hk
    refine .since (leaves_step (M := word .ident (tail K)) (by simp [hk]) fun ws => ?_)
      (course_expectName_bind (course_pure ⟨rfl, .inl rfl⟩))
    simp [allows_expression_cons, hk]
  · refine course_fail (.inr rfl) fun _ => ⟨rfl, fun ws => ?_⟩
    rw [allows_expression_cons]
    split <;> simp_all

theorem allows_tail_cons (hK : K.Avoids .infixOp) {w : Word} {ws : List Word}
    (hw : w.kind = .infixOp) : (tail K).allows (w :: ws) ↔ (before AnyExpression K).allows ws := by
  constructor
  · rintro (h | ⟨-, h⟩)
    · exact absurd hw (hK h)
    · exact h
  · exact fun h => .inr ⟨hw, h⟩

/-- Where no infix operator is ahead, the expression is over. -/
theorem BehindOperand.leaves (h : BehindOperand K s L) (hahead : s.ahead.kind ≠ .infixOp) :
    Leaves s L s K := by
  rcases h with rfl | ⟨rfl, -⟩
  · exact leaves_left_of_ne hahead
  · exact .refl s L

theorem course_tailOver (left : Expression) (ih : ∀ n < s.levels, CourseExpressions n)
    (hK : K.Avoids .infixOp) (hL : BehindOperand K s L) :
    Course (tailOver expression left) s s L (EndsExpression K) := by
  refine course_bind (course_whileAhead (n := s.levels) (I := BehindOperand K) ?_ rfl hL) ?_
  · intro t M hlevels hM hahead
    have hahead : t.ahead.kind = .infixOp := by simpa using hahead
    rcases hM with rfl | ⟨-, hne⟩
    · refine course_current_bind (course_advance_bind (.since (leaves_step (by simp [hahead])
        fun ws => allows_tail_cons hK hahead) ?_))
      refine course_bind (course_operand (by rw [levels_advance, hlevels]; exact ih) hK) ?_
      rintro e u t M - ⟨rfl, hM⟩
      exact course_pure ⟨rfl, hM⟩
    · exact absurd hahead hne
  · rintro ops u t M - ⟨rfl, hM, hahead⟩
    have hahead : u.ahead.kind ≠ .infixOp := by simpa using hahead
    exact (course_pure ⟨rfl, rfl, hahead⟩).since (hM.leaves hahead)

theorem courseExpressions (n : Nat) : CourseExpressions n := by
  induction n using Nat.strongRecOn with
  | ind n ih =>
    rintro s K rfl hK
    rw [expression_eq, expressionOver]
    refine course_bind (course_operand ih hK) ?_
    rintro left u t M hleaves ⟨rfl, hM⟩
    exact course_tailOver left (by rw [hleaves.levels]; exact ih) hK hM

/-- An expression is followed by what may come behind it. -/
theorem course_expression (hK : K.Avoids .infixOp) :
    Course expression s.advance s (before AnyExpression K) (EndsAt K) :=
  (courseExpressions _ rfl hK).imp fun _ _ _ _ _ h => ⟨h.1, h.2.1⟩

/-- Behind an operand the rest of the expression is read, if there is any. -/
theorem course_expressionTail (left : Expression) (hK : K.Avoids .infixOp) :
    Course (expressionTail left) s s (tail K) (EndsAt K) :=
  (course_tailOver left (fun n _ => courseExpressions n) hK (.inl rfl)).imp
    fun _ _ _ _ _ h => ⟨h.1, h.2.1⟩

/-! ## Lists -/

/-- What lists need to know of their items: they keep their course, and none begins with the bracket
that closes the list. -/
structure CourseItem (item : Production α) (X : Phrase α) [Occurs X] : Prop where
  course {s : State} {K : Prospect} : K.Avoids .infixOp →
    Course item s.advance s (before X K) (EndsAt K)
  avoids_rightParen {K : Prospect} : (before X K).Avoids .rightParen

section List

variable {item : Production α} {X : Phrase α} [Occurs X]

/-- What may come behind an item of a list that `K` follows. -/
def behindItem (X : Phrase α) [Occurs X] (K : Prospect) : Prospect :=
  before (MoreItems X) (word .rightParen K)

/-- The list is closed, or goes on behind a comma. -/
theorem allows_behindItem {ws : List Word} :
    (behindItem X K).allows ws ↔ (word .rightParen K).allows ws ∨
      (word .comma ((word .rightParen K).or (before X (behindItem X K)))).allows ws :=
  iff_of_eq (congrArg (·.allows ws) before_moreItems)

theorem avoids_behindItem : (behindItem X K).Avoids .infixOp := by
  intro w ws h
  rcases allows_behindItem.mp h with h | h
  · exact avoids_word (by simp) h
  · exact avoids_word (by simp) h

/-- The prospect in the loop over the items behind commas: after a comma the list may have been
closed at once. -/
def BehindItem (X : Phrase α) [Occurs X] (K : Prospect) (t : State) (M : Prospect) : Prop :=
  M = behindItem X K ∨ M = word .rightParen K ∧ t.ahead.kind = .rightParen

theorem course_itemAfterComma (h : CourseItem item X) (hs : s.ahead.kind = .comma) :
    Course (itemAfterComma item) s.advance s (behindItem X K)
      fun _ u t M => u = t ∧ BehindItem X K t M := by
  refine .since (leaves_step (M := (word .rightParen K).or (before X (behindItem X K)))
    (by simp [hs]) fun ws => ?_) ?_
  · simp [allows_behindItem, hs]
  · refine course_ifAhead (fun hclose => ?_) fun hclose => ?_
    · exact (course_pure ⟨rfl, .inr ⟨rfl, hclose⟩⟩).since (leaves_left hclose h.avoids_rightParen)
    · refine course_advance_bind (.since (leaves_right_of_ne hclose)
        (course_bind (h.course avoids_behindItem) ?_))
      rintro a u t M - ⟨rfl, rfl⟩
      exact course_pure ⟨rfl, .inl rfl⟩

/-- Behind the last item the list must be closed. -/
theorem BehindItem.leaves (h : BehindItem X K s L) (hahead : s.ahead.kind ≠ .comma) :
    Leaves s L s (word .rightParen K) := by
  rcases h with rfl | ⟨rfl, -⟩
  · refine leaves_restrict (fun _ hws => allows_behindItem.mpr (.inl hws)) fun ws hws => ?_
    exact (allows_behindItem.mp hws).resolve_right fun hcomma => hahead hcomma.1
  · exact .refl s _

/-- The items behind commas, and the bracket that closes the list. -/
theorem course_moreItems {β : Type} (h : CourseItem item X) (f : List (Option α) → β) :
    Course (do
        let more ← whileAhead (· == .comma) rfl (itemAfterComma item)
        expect .rightParen
        return f more) s s (behindItem X K)
      fun b u t M => (∃ more, b = f more) ∧ u = t ∧ M = K := by
  refine course_bind (course_whileAhead (n := s.levels) (I := BehindItem X K) ?_ rfl
    (.inl rfl)) ?_
  · rintro t M - hM hahead
    have hahead : t.ahead.kind = .comma := by simpa using hahead
    rcases hM with rfl | ⟨-, hclose⟩
    · exact course_itemAfterComma h hahead
    · simp [hahead] at hclose
  · rintro more u t M - ⟨rfl, hM, hahead⟩
    exact .since (hM.leaves (by simpa using hahead)) (course_expect_bind (by simp)
      fun _ => course_pure ⟨⟨more, rfl⟩, rfl, rfl⟩)

/-- A list in brackets that `K` follows, or a single item in brackets that `K'` follows. -/
theorem course_listWithComma (h : CourseItem item X) {K' : Prospect}
    (hK : ∀ ws, K.allows ws → K'.allows ws) :
    Course (listWithComma item) s s
      ((before (Items X) (word .rightParen K)).or (before X (word .rightParen K')))
      fun found u t M => u = t ∧
        ((∃ a, found = ([a], false)) ∧ M = K' ∨ (∀ a, found ≠ ([a], false)) ∧ M = K) := by
  rw [before_items]
  refine course_ifAhead (fun hclose => ?_) fun hclose => ?_
  · refine course_advance_bind (.since (leaves_left hclose h.avoids_rightParen) (.since
      (leaves_left hclose h.avoids_rightParen) (.since (leaves_word hclose (by simp)) ?_)))
    exact course_pure ⟨rfl, .inr ⟨by simp, rfl⟩⟩
  · refine course_advance_bind (.since (leaves_restrict
      (M := before X ((behindItem X K).or (word .rightParen K'))) ?_ ?_) ?_)
    · intro ws hws
      rw [before_or] at hws
      exact hws.imp .inr id
    · intro ws hws
      rw [before_or]
      exact hws.imp (fun hws => hws.resolve_left fun hend => hclose hend.1) id
    · refine course_bind (h.course (avoids_behindItem.or (avoids_word (by simp)))) ?_
      rintro a u t M - ⟨rfl, rfl⟩
      refine course_aheadIs_bind ?_
      by_cases hcomma : u.ahead.kind = .comma
      · -- A comma makes it a list, even if nothing stands behind the comma.
        refine .since (leaves_left hcomma (avoids_word (by simp)))
          ((course_moreItems h _).imp ?_)
        rintro found u t M - ⟨⟨more, rfl⟩, rfl, rfl⟩
        exact ⟨rfl, .inr ⟨by simp [hcomma], rfl⟩⟩
      · refine .since (leaves_restrict (M := word .rightParen K') (fun _ => .inr)
          fun ws hws => ?_) ?_
        · rcases hws with hws | hws
          · rcases allows_behindItem.mp hws with ⟨hend, hws⟩ | hws
            · exact ⟨hend, hK ws hws⟩
            · exact absurd hws.1 hcomma
          · exact hws
        · refine course_bind (Q := fun found u' t M => found = [] ∧ u' = u ∧ t = u ∧
            M = word .rightParen K') (course_whileAhead_nil (by simpa using hcomma)
            ⟨rfl, rfl, rfl, rfl⟩) ?_
          rintro more u' t M - ⟨rfl, rfl, rfl, rfl⟩
          refine course_expect_bind (by simp) fun _ => course_pure ⟨rfl, .inl ⟨⟨a, ?_⟩, rfl⟩⟩
          simp [hcomma]

/-- A list behind its opening bracket. -/
theorem course_list (h : CourseItem item X) :
    Course (list item) s s (before (Items X) (word .rightParen K)) (EndsAt K) := by
  have hlist : (before (Items X) (word .rightParen K)).or (before X (word .rightParen K)) =
      before (Items X) (word .rightParen K) := by
    ext ws
    refine ⟨fun hws => hws.elim id ?_, .inl⟩
    rintro ⟨vs, a, rest, rfl, hvs, hrest⟩
    have hitems := Items.cons hvs MoreItems.nil
    rw [List.append_nil] at hitems
    exact allows_before_append hitems hrest
  have hfound := course_listWithComma (s := s) (K := K) h (fun _ => id)
  rw [hlist] at hfound
  refine course_bind hfound ?_
  rintro found u t M - ⟨rfl, ⟨-, rfl⟩ | ⟨-, rfl⟩⟩
  · exact course_pure ⟨rfl, rfl⟩
  · exact course_pure ⟨rfl, rfl⟩

end List

/-! ## Items -/

theorem course_registerName :
    Course registerName s.advance s (before IsRegister K) (EndsAt K) := by
  rw [before_isRegister]
  refine course_current_bind ?_
  rw [current_advance]
  split
  · rename_i hk
    exact (course_pure ⟨rfl, rfl⟩).since (leaves_word hk (by simp))
  · rename_i hk
    exact course_fail (.inr rfl) fun _ => ⟨rfl, fun ws h => hk h.1⟩

theorem course_parameter :
    Course parameter s.advance s (before IsParameter K) (EndsAt K) := by
  rw [before_isParameter]
  refine course_current_bind ?_
  rw [current_advance]
  split
  · rename_i hk
    exact .since ((leaves_right hk (avoids_word (by simp))).trans (leaves_word hk (by simp)))
      (course_expectName_bind (course_pure ⟨rfl, rfl⟩))
  · rename_i hk
    exact .since ((leaves_left hk (avoids_word (by simp))).trans (leaves_word hk (by simp)))
      (course_pure ⟨rfl, rfl⟩)
  · refine course_fail (.inr rfl) fun _ => ⟨rfl, fun ws h => ?_⟩
    rcases h with h | h
    · simp_all
    · simp_all

theorem courseItem_registerName : CourseItem registerName IsRegister where
  course _ := course_registerName
  avoids_rightParen := by
    intro K
    rw [before_isRegister]
    exact avoids_word (by simp)

/-- A parameter begins with a name or a percent sign. -/
theorem avoids_isParameter {k : Kind} (hident : Kind.ident ≠ k) (hpercent : Kind.percent ≠ k) :
    (before IsParameter K).Avoids k := by
  rw [before_isParameter]
  exact Avoids.or (avoids_word hident) (avoids_word hpercent)

theorem courseItem_parameter : CourseItem parameter IsParameter where
  course _ := course_parameter
  avoids_rightParen := avoids_isParameter (by simp) (by simp)

theorem courseItem_expression : CourseItem expression AnyExpression where
  course := course_expression
  avoids_rightParen h hk := by
    rw [allows_expression_cons, hk] at h
    exact h

end Grammar
end CircuitText
