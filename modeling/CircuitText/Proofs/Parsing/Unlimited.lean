import CircuitText.Proofs.Parsing.Phrase

/-!
# The grammar without a nesting limit

What may open so many levels may open more, so that phrases with different limits go together under
the larger one.  Hence the rules of the grammar hold as well when no number of levels is prescribed
at all, and there they need not count.

* `Grows`, `grows_isExpression`, `grows_isBlock` --- more levels allow more;
* `Unlimited` --- phrases of any number of levels;
* `unlimited_items`, `anyExpression_iff`, `anyBlock_iff`, … --- the rules without a limit.
-/

namespace CircuitText
namespace Grammar

variable {α : Type} {X Y : Phrase α} {ws : List Word} {a : α} {as : List α}

/-! ## Phrases of larger sorts -/

theorem Many.imp (h : ∀ {ws a}, X ws a → Y ws a) (hws : Many X ws as) : Many Y ws as := by
  induction hws with
  | nil => exact .nil
  | cons first _ ih => exact .cons (h first) ih

theorem MoreItems.imp (h : ∀ {ws a}, X ws a → Y ws a) (hws : MoreItems X ws as) :
    MoreItems Y ws as := by
  induction hws with
  | nil => exact .nil
  | comma => exact .comma
  | cons item _ ih => exact .cons (h item) ih

theorem Items.imp (h : ∀ {ws a}, X ws a → Y ws a) (hws : Items X ws as) : Items Y ws as := by
  cases hws with
  | nil => exact .nil
  | cons item more => exact .cons (h item) (more.imp h)

theorem Bracketed.imp (h : ∀ {ws a}, X ws a → Y ws a) (hws : Bracketed X ws a) :
    Bracketed Y ws a := by
  cases hws with
  | mk inside => exact .mk (h inside)

theorem OperandOver.imp {X Y : Phrase Expression} {e : Expression}
    (h : ∀ {ws e}, X ws e → Y ws e) (hws : OperandOver X ws e) : OperandOver Y ws e := by
  cases hws with
  | register => exact .register
  | zero => exact .zero
  | one => exact .one
  | group => exact .group
  | bracketed inside => exact .bracketed (inside.imp h)
  | unary operand => exact .unary (h operand)

theorem ExpressionOver.imp {X Y : Phrase Expression} {e : Expression}
    (h : ∀ {ws e}, X ws e → Y ws e) (hws : ExpressionOver X ws e) : ExpressionOver Y ws e := by
  induction hws with
  | operand operand => exact .operand (operand.imp h)
  | binary operand closed _ ih => exact .binary (operand.imp h) closed ih

/-! ## More levels -/

/-- What may open so many levels may open more. -/
def Grows (X : Nat → Phrase α) : Prop := ∀ {m n : Nat}, m ≤ n → ∀ {ws a}, X m ws a → X n ws a

/-- What is one level deeper grows if it grows up to there. -/
theorem deeper_imp {X : Nat → Phrase α} {m n : Nat} (hmn : m ≤ n)
    (h : ∀ k, m = k + 1 → ∀ {n}, k ≤ n → ∀ {ws a}, X k ws a → X n ws a) (hws : Deeper X m ws a) :
    Deeper X n ws a := by
  obtain ⟨k, rfl, hk⟩ := hws
  obtain ⟨j, rfl⟩ := Nat.exists_eq_add_of_lt hmn
  exact ⟨k + j, rfl, h k rfl (Nat.le_add_right ..) hk⟩

theorem grows_isExpression : Grows IsExpression := by
  intro m
  induction m with
  | zero =>
    intro n hmn ws e hws
    rw [isExpression_eq] at hws ⊢
    exact hws.imp (deeper_imp hmn fun k hk => absurd hk (by omega))
  | succ m ih =>
    intro n hmn ws e hws
    rw [isExpression_eq] at hws ⊢
    refine hws.imp (deeper_imp hmn fun k hk => ?_)
    obtain rfl : m = k := by omega
    exact ih

theorem IsInputs.imp {m n : Nat} (hmn : m ≤ n) {es : List Expression} (hws : IsInputs m ws es) :
    IsInputs n ws es := by
  cases hws with
  | single expression bare => exact .single (grows_isExpression hmn expression) bare
  | listed list => exact .listed (list.imp (Items.imp (grows_isExpression hmn)))
  | binary operand rest =>
    exact .binary (operand.imp (grows_isExpression hmn)) (grows_isExpression hmn rest)

theorem StatementOver.imp {m n : Nat} (hmn : m ≤ n) {X Y : Phrase (List Statement)}
    (h : ∀ {ws b}, X ws b → Y ws b) {st : Statement} (hws : StatementOver m X ws st) :
    StatementOver n Y ws st := by
  cases hws with
  | group members => exact .group members
  | call inputs outputs =>
    exact .call (inputs.imp (Items.imp (grows_isExpression hmn))) outputs
  | pipe inputs outputs => exact .pipe (inputs.imp hmn) outputs
  | clock delay counter block => exact .clock delay counter (h block)

theorem grows_isBlock : Grows IsBlock := by
  intro m
  induction m with
  | zero =>
    intro n hmn ws b hws
    rw [isBlock_eq] at hws ⊢
    exact hws.imp (StatementOver.imp hmn (deeper_imp hmn fun k hk => absurd hk (by omega)))
  | succ m ih =>
    intro n hmn ws b hws
    rw [isBlock_eq] at hws ⊢
    refine hws.imp (StatementOver.imp hmn (deeper_imp hmn fun k hk => ?_))
    obtain rfl : m = k := by omega
    exact ih

theorem grows_isStatement : Grows IsStatement := by
  intro m n hmn ws st hws
  refine StatementOver.imp hmn (deeper_imp hmn fun k _ => ?_) hws
  exact grows_isBlock

theorem grows_isItem : Grows IsItem := fun hmn _ _ hws => by
  cases hws with
  | circuit registers block => exact .circuit registers (grows_isBlock hmn block)
  | byPath => exact .byPath
  | byName => exact .byName

/-! ## Any number of levels -/

/-- Phrases of any number of levels. -/
def Unlimited (X : Nat → Phrase α) : Phrase α := fun ws a => ∃ n, X n ws a

/-- Expressions, however deep. -/
abbrev AnyExpression : Phrase Expression := Unlimited IsExpression

/-- Statements, however deep. -/
abbrev AnyStatement : Phrase Statement := Unlimited IsStatement

/-- Blocks, however deep. -/
abbrev AnyBlock : Phrase (List Statement) := Unlimited IsBlock

/-- Circuits and references, however deep. -/
abbrev AnyItem : Phrase Item := Unlimited IsItem

section Repetition

variable {X : Nat → Phrase α}

/-- Phrases one behind the other have a level in common. -/
theorem unlimited_many (h : Grows X) :
    Many (Unlimited X) ws as ↔ Unlimited (fun n => Many (X n)) ws as := by
  constructor
  · intro hws
    induction hws with
    | nil => exact ⟨0, .nil⟩
    | cons first _ ih =>
      obtain ⟨m, first⟩ := first
      obtain ⟨n, more⟩ := ih
      exact ⟨max m n, .cons (h (Nat.le_max_left ..) first)
        (more.imp (h (Nat.le_max_right ..)))⟩
  · rintro ⟨n, hws⟩
    exact hws.imp fun hws => ⟨n, hws⟩

theorem unlimited_items (h : Grows X) :
    Items (Unlimited X) ws as ↔ Unlimited (fun n => Items (X n)) ws as := by
  have hmore : ∀ {ws as}, MoreItems (Unlimited X) ws as → ∃ n, MoreItems (X n) ws as := by
    intro ws as hws
    induction hws with
    | nil => exact ⟨0, .nil⟩
    | comma => exact ⟨0, .comma⟩
    | cons item _ ih =>
      obtain ⟨m, item⟩ := item
      obtain ⟨n, more⟩ := ih
      exact ⟨max m n, .cons (h (Nat.le_max_left ..) item)
        (more.imp (h (Nat.le_max_right ..)))⟩
  constructor
  · rintro (_ | ⟨⟨m, item⟩, more⟩)
    · exact ⟨0, .nil⟩
    · obtain ⟨n, more⟩ := hmore more
      exact ⟨max m n, .cons (h (Nat.le_max_left ..) item)
        (more.imp (h (Nat.le_max_right ..)))⟩
  · rintro ⟨n, hws⟩
    exact hws.imp fun hws => ⟨n, hws⟩

theorem unlimited_bracketed :
    Bracketed (Unlimited X) ws a ↔ Unlimited (fun n => Bracketed (X n)) ws a := by
  constructor
  · rintro ⟨⟨n, inside⟩⟩
    exact ⟨n, .mk inside⟩
  · rintro ⟨n, hws⟩
    exact hws.imp fun hws => ⟨n, hws⟩

end Repetition

/-- The rule for expressions, without a limit. -/
theorem anyExpression_iff {e : Expression} :
    AnyExpression ws e ↔ ExpressionOver AnyExpression ws e := by
  constructor
  · rintro ⟨n, hws⟩
    rw [isExpression_eq] at hws
    exact hws.imp fun ⟨k, _, hk⟩ => ⟨k, hk⟩
  · intro hws
    have hoperand : ∀ {ws e}, OperandOver AnyExpression ws e →
        ∃ n, OperandOver (IsExpression n) ws e := by
      intro ws e hws
      cases hws with
      | register => exact ⟨0, .register⟩
      | zero => exact ⟨0, .zero⟩
      | one => exact ⟨0, .one⟩
      | group => exact ⟨0, .group⟩
      | bracketed inside =>
        obtain ⟨n, inside⟩ := unlimited_bracketed.mp inside
        exact ⟨n, .bracketed inside⟩
      | unary operand =>
        obtain ⟨n, operand⟩ := operand
        exact ⟨n, .unary operand⟩
    induction hws with
    | operand operand =>
      obtain ⟨n, operand⟩ := hoperand operand
      exact ⟨n + 1, .operand operand⟩
    | binary operand closed _ ih =>
      obtain ⟨m, operand⟩ := hoperand operand
      obtain ⟨n, rest⟩ := ih
      have hle : n ≤ max m n + 1 := Nat.le_succ_of_le (Nat.le_max_right ..)
      exact ⟨max m n + 1, .binary (operand.imp (grows_isExpression (Nat.le_max_left ..))) closed
        (grows_isExpression hle rest)⟩

/-- Lists of expressions have a level in common. -/
theorem anyList_iff {es : List Expression} :
    Bracketed (Items AnyExpression) ws es ↔
      Unlimited (fun n => Bracketed (Items (IsExpression n))) ws es := by
  rw [← unlimited_bracketed]
  constructor
  · exact Bracketed.imp (unlimited_items grows_isExpression).mp
  · exact Bracketed.imp (unlimited_items grows_isExpression).mpr

/-- The rule for blocks, without a limit. -/
theorem anyBlock_iff {b : List Statement} : AnyBlock ws b ↔ Many AnyStatement ws b := by
  rw [unlimited_many grows_isStatement]
  exact exists_congr fun n => by rw [isBlock_eq]

end Grammar
end CircuitText
