import CircuitText.Proofs.Parsing.Reading

/-!
# Failing

A production that is built from others fails where one of its parts fails, and then the parts before
it have succeeded.  `Fails p s f` says that `p`, started in the state `s`, ends with the fault `f`;
as with `Reads`, there is one law for each way in which productions are built.

* `Fails`, `fails_bind`, `fails_nested` --- the laws of failing;
* `fails_whileAhead`, `fails_untilEnd` --- repetition, one round taken off;
* `induction_on_rounds`, `induction_on_takes` --- induction along the rounds of a loop.
-/

namespace CircuitText
namespace Grammar

variable {α β : Type} {s t : State} {f : Fault}

/-- Started in `s`, the production `p` fails with the fault `f`. -/
def Fails (p : Production α) (s : State) (f : Fault) : Prop := (p s).result = .error f

theorem Reads.remaining_le {p : Production α} {a : α} (h : Reads p s a t) :
    t.remaining ≤ s.remaining := by
  rw [← h.2]
  exact (p s).remaining_le

theorem Reads.not_fails {p : Production α} {a : α} (h : Reads p s a t) : ¬ Fails p s f := by
  intro hfails
  rw [Fails, h.1] at hfails
  cases hfails

/-! ## Single steps -/

@[simp] theorem not_fails_pure {a : α} : ¬ Fails (pure a) s f :=
  Reads.not_fails (reads_pure.mpr ⟨rfl, rfl⟩)

@[simp] theorem not_fails_current : ¬ Fails current s f := nofun

@[simp] theorem not_fails_advance : ¬ Fails advance s f := nofun

@[simp] theorem fails_fail {g : Fault} : Fails (fail g : Production α) s f ↔ f = g := by
  show Except.error g = Except.error f ↔ _
  rw [Except.error.injEq, eq_comm]

@[simp] theorem fails_expect {k : Kind} :
    Fails (expect k) s f ↔ s.ahead.kind ≠ k ∧ f = .expected k s.ahead := by
  unfold Fails expect
  by_cases h : s.ahead.kind = k
  · simp [h, advance]
  · simp [h, fail, eq_comm]

@[simp] theorem fails_tooDeep :
    Fails (tooDeep : Production α) s f ↔ f = ⟨.nestedTooDeep, s.current.span⟩ := fails_fail

/-! ## One part behind the other -/

/-- The first part fails, or it succeeds and the second part fails behind it. -/
theorem fails_bind {p : Production α} {q : α → Production β} :
    Fails (p >>= q) s f ↔ Fails p s f ∨ ∃ a t, Reads p s a t ∧ Fails (q a) t f := by
  unfold Fails Reads
  show (Production.bind p q s).result = _ ↔ _
  unfold Production.bind
  split
  · rename_i a t le h
    rw [h]
    constructor
    · exact fun hq => .inr ⟨a, t, ⟨rfl, rfl⟩, hq⟩
    · rintro (hp | ⟨a', t', ⟨ha, rfl⟩, hq⟩)
      · cases hp
      · rw [Except.ok.injEq] at ha
        exact ha ▸ hq
  · rename_i e t le h
    rw [h]
    simp

/-- What is made of a reading afterwards makes no difference. -/
@[simp] theorem fails_bind_pure {p : Production α} {g : α → β} :
    Fails (p >>= fun a => pure (g a)) s f ↔ Fails p s f := by
  simp [fails_bind]

@[simp] theorem fails_current_bind {q : Token → Production β} :
    Fails (current >>= q) s f ↔ Fails (q s.current) s f := Iff.rfl

@[simp] theorem fails_ahead_bind {q : Token → Production β} :
    Fails (ahead >>= q) s f ↔ Fails (q s.ahead) s f := Iff.rfl

@[simp] theorem fails_aheadIs_bind {k : Kind} {q : Bool → Production β} :
    Fails (aheadIs k >>= q) s f ↔ Fails (q (s.ahead.kind == k)) s f := Iff.rfl

@[simp] theorem fails_advance_bind {q : Unit → Production β} :
    Fails (advance >>= q) s f ↔ Fails (q ()) s.advance f := Iff.rfl

@[simp] theorem fails_expect_bind {k : Kind} {q : Unit → Production β} :
    Fails (expect k >>= q) s f ↔
      s.ahead.kind ≠ k ∧ f = .expected k s.ahead ∨ s.ahead.kind = k ∧ Fails (q ()) s.advance f := by
  rw [fails_bind, fails_expect]
  refine or_congr Iff.rfl ⟨?_, fun ⟨hk, h⟩ => ⟨(), _, reads_expect.mpr ⟨hk, rfl⟩, h⟩⟩
  rintro ⟨_, t, ht, h⟩
  obtain ⟨hk, rfl⟩ := reads_expect.mp ht
  exact ⟨hk, h⟩

@[simp] theorem fails_expectName :
    Fails expectName s f ↔ s.ahead.kind ≠ .ident ∧ f = .expected .ident s.ahead := by
  simp [expectName]

@[simp] theorem fails_expectName_bind {q : String → Production β} :
    Fails (expectName >>= q) s f ↔
      s.ahead.kind ≠ .ident ∧ f = .expected .ident s.ahead ∨
        s.ahead.kind = .ident ∧ Fails (q s.advance.current.literal) s.advance f := by
  simp [fails_bind, and_assoc]

@[simp] theorem fails_ite {c : Prop} [Decidable c] {p q : Production α} :
    Fails (if c then p else q) s f ↔ c ∧ Fails p s f ∨ ¬ c ∧ Fails q s f := by
  by_cases h : c <;> simp [h]

/-- What is nested fails one level down, unless no level is left. -/
theorem fails_nested {p : Production α} :
    Fails (nested p) s f ↔
      s.depth < nestingLimit ∧ Fails p s.deeper f ∨
        ¬ s.depth < nestingLimit ∧ f = ⟨.nestedTooDeep, s.current.span⟩ := by
  by_cases h : s.depth < nestingLimit
  · have heq : nested p s = (p s.deeper).leave := if_pos h
    rw [Fails, heq]
    simp [h, Outcome.leave, Fails]
  · have heq : nested p s = tooDeep s := if_neg h
    rw [Fails, heq]
    simp only [h, false_and, false_or, not_false_eq_true, true_and]
    exact fails_tooDeep

/-! ## Repetition -/

section Repetition

variable {p : Production α}

/-- A loop fails in its first round or behind it. -/
theorem fails_whileAhead {wanted : Kind → Bool} {stops : wanted .endOfText = false} :
    Fails (whileAhead wanted stops p) s f ↔
      wanted s.ahead.kind = true ∧ (Fails p s.advance f ∨
        ∃ a t, Reads p s.advance a t ∧ Fails (whileAhead wanted stops p) t f) := by
  unfold Fails Reads
  conv => lhs; rw [whileAhead]
  by_cases h : wanted s.ahead.kind = true
  · rw [dif_pos h]
    dsimp only
    split
    · rename_i e u le hp
      simp [h, hp]
    · rename_i b u le hp
      simp only [h, hp, Except.ok.injEq, reduceCtorEq, true_and, false_or, and_assoc]
      split <;> rename_i hrest <;> simp [hrest]
  · simp [h]

/-- What holds of a state if it holds behind every round of a loop, holds of every state: each round
takes a token. -/
theorem induction_on_rounds {wanted : Kind → Bool} (stops : wanted .endOfText = false)
    (p : Production α) {motive : State → Prop}
    (round : ∀ s, (wanted s.ahead.kind = true → ∀ a t, Reads p s.advance a t → motive t) →
      motive s) (s : State) : motive s := by
  induction hrem : s.remaining using Nat.strongRecOn generalizing s with
  | ind n ih =>
    refine round s fun hwanted a t hread => ih t.remaining ?_ t rfl
    have hlt : s.advance.remaining < s.remaining :=
      s.remaining_advance_lt fun hend => by simp [hend, stops] at hwanted
    rw [← hrem]
    exact Nat.lt_of_le_of_lt hread.remaining_le hlt

/-- The same for a production that takes a token by itself. -/
theorem induction_on_takes (takes : Consumes p) {motive : State → Prop}
    (round : ∀ s, (∀ a t, Reads p s a t → motive t) → motive s) (s : State) : motive s := by
  induction hrem : s.remaining using Nat.strongRecOn generalizing s with
  | ind n ih =>
    refine round s fun a t hread => ih t.remaining ?_ t rfl
    rw [← hrem, ← hread.2]
    exact takes s a hread.1

/-- A loop fails only as one of its rounds does. -/
theorem exists_fails_of_whileAhead {wanted : Kind → Bool} {stops : wanted .endOfText = false}
    (h : Fails (whileAhead wanted stops p) s f) : ∃ t, Fails p t f := by
  induction s using induction_on_rounds stops p with
  | round s ih =>
    obtain ⟨hwanted, hround | ⟨a, t, hread, hrest⟩⟩ := fails_whileAhead.mp h
    · exact ⟨_, hround⟩
    · exact ih hwanted a t hread hrest

theorem fails_untilEnd {takes : Consumes p} :
    Fails (untilEnd p takes) s f ↔
      s.current.kind ≠ .endOfText ∧ (Fails p s f ∨
        ∃ a t, Reads p s a t ∧ Fails (untilEnd p takes) t f) := by
  unfold Fails Reads
  conv => lhs; rw [untilEnd]
  by_cases h : s.current.kind = .endOfText
  · simp [h]
  · rw [if_neg h]
    split
    · rename_i e u le hp
      simp [h, hp]
    · rename_i b u le hp
      simp only [h, hp, Except.ok.injEq, reduceCtorEq, ne_eq, not_false_eq_true, true_and,
        false_or, and_assoc]
      split <;> rename_i hrest <;> simp [hrest]

end Repetition

end Grammar
end CircuitText
