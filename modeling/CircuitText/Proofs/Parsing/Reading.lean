import CircuitText.Grammar.Depth
import CircuitText.Proofs.Parsing.Phrase

/-!
# Successful reading

A production that succeeds does nothing but move on.  `Reads p s a t` says that `p` takes the state
`s` to `t` and gives `a`; there is one law for each way in which productions are built, and after
that no production has to be run.  `Passes s ws t` says that moving on over the words `ws` leads
from `s` to `t`, and `Spans X s a t` that these words are a phrase of the sort `X` that says `a`.

What is proved of each production is that it reads exactly its phrases: `Reads p s a t` holds just
when `Spans X s a t` does, up to what must not be ahead in `t` because the production would have
gone on with it.  A production that is entered with its first token in `current` is started in
`s.advance`, where `s` is the state in which that token is still ahead.

* `Reads`, `reads_bind`, `reads_whileAhead_cons`, … --- the laws of successful reading;
* `Passes`, `passes_append` --- moving on over words;
* `Spans`, `spans_bracketed`, … --- phrases between two states.
-/

namespace CircuitText
namespace Grammar

variable {α β : Type} {s t u : State}

/-! ## Productions that succeed -/

/-- Started in `s`, the production `p` succeeds with `a` and ends in `t`. -/
def Reads (p : Production α) (s : State) (a : α) (t : State) : Prop :=
  (p s).result = .ok a ∧ (p s).after = t

theorem reads_of_eq_ok {p : Production α} {a b : α} {le : u.remaining ≤ s.remaining}
    (h : p s = ⟨.ok b, u, le⟩) : Reads p s a t ↔ b = a ∧ u = t := by
  rw [Reads, h, Except.ok.injEq]

theorem not_reads_of_eq_error {p : Production α} {a : α} {e : Fault}
    {le : u.remaining ≤ s.remaining} (h : p s = ⟨.error e, u, le⟩) : ¬Reads p s a t := by
  rw [Reads, h]
  simp

@[simp] theorem reads_pure {a b : α} : Reads (pure a) s b t ↔ b = a ∧ t = s := by
  show Except.ok a = Except.ok b ∧ s = t ↔ _
  rw [Except.ok.injEq, eq_comm, eq_comm (a := s)]

theorem reads_bind {p : Production α} {f : α → Production β} {b : β} :
    Reads (p >>= f) s b u ↔ ∃ a t, Reads p s a t ∧ Reads (f a) t b u := by
  unfold Reads
  show (Production.bind p f s).result = _ ∧ (Production.bind p f s).after = _ ↔ _
  unfold Production.bind
  split
  · rename_i a t le h
    rw [h]
    constructor
    · exact fun hf => ⟨a, t, ⟨rfl, rfl⟩, hf⟩
    · rintro ⟨a', t', ⟨ha, rfl⟩, hf⟩
      rw [Except.ok.injEq] at ha
      exact ha ▸ hf
  · rename_i e t le h
    simp [h]

@[simp] theorem reads_current {k : Token} : Reads current s k t ↔ k = s.current ∧ t = s := by
  show Except.ok s.current = Except.ok k ∧ s = t ↔ _
  rw [Except.ok.injEq, eq_comm, eq_comm (a := s)]

@[simp] theorem reads_ahead {k : Token} : Reads ahead s k t ↔ k = s.ahead ∧ t = s := by
  show Except.ok s.ahead = Except.ok k ∧ s = t ↔ _
  rw [Except.ok.injEq, eq_comm, eq_comm (a := s)]

@[simp] theorem reads_aheadIs {k : Kind} {b : Bool} :
    Reads (aheadIs k) s b t ↔ b = (s.ahead.kind == k) ∧ t = s := by
  show Except.ok (s.ahead.kind == k) = Except.ok b ∧ s = t ↔ _
  rw [Except.ok.injEq, eq_comm, eq_comm (a := s)]

@[simp] theorem reads_advance {a : Unit} : Reads advance s a t ↔ t = s.advance := by
  show Except.ok () = Except.ok a ∧ s.advance = t ↔ _
  simp [eq_comm]

@[simp] theorem not_reads_fail {f : Fault} {a : α} : ¬ Reads (fail f) s a t := by
  simp [Reads, fail]

@[simp] theorem reads_expect {k : Kind} {a : Unit} :
    Reads (expect k) s a t ↔ s.ahead.kind = k ∧ t = s.advance := by
  unfold Reads expect
  split
  · rename_i h
    show Reads advance s a t ↔ _
    simp [h]
  · rename_i h
    simp [h, fail]

/-! What follows a production that reads at most one word goes on in a known state. -/

@[simp] theorem reads_current_bind {f : Token → Production β} {b : β} :
    Reads (current >>= f) s b u ↔ Reads (f s.current) s b u := by
  simp [reads_bind, and_assoc]

@[simp] theorem reads_ahead_bind {f : Token → Production β} {b : β} :
    Reads (ahead >>= f) s b u ↔ Reads (f s.ahead) s b u := by
  simp [reads_bind, and_assoc]

@[simp] theorem reads_aheadIs_bind {k : Kind} {f : Bool → Production β} {b : β} :
    Reads (aheadIs k >>= f) s b u ↔ Reads (f (s.ahead.kind == k)) s b u := by
  simp [reads_bind, and_assoc]

@[simp] theorem reads_advance_bind {f : Unit → Production β} {b : β} :
    Reads (advance >>= f) s b u ↔ Reads (f ()) s.advance b u := by
  rw [reads_bind]
  constructor
  · rintro ⟨_, t, ht, h⟩
    rwa [reads_advance.mp ht] at h
  · exact fun h => ⟨(), _, reads_advance.mpr rfl, h⟩

@[simp] theorem reads_expect_bind {k : Kind} {f : Unit → Production β} {b : β} :
    Reads (expect k >>= f) s b u ↔ s.ahead.kind = k ∧ Reads (f ()) s.advance b u := by
  rw [reads_bind]
  constructor
  · rintro ⟨_, t, ht, h⟩
    obtain ⟨hk, rfl⟩ := reads_expect.mp ht
    exact ⟨hk, h⟩
  · exact fun ⟨hk, h⟩ => ⟨(), _, reads_expect.mpr ⟨hk, rfl⟩, h⟩

@[simp] theorem reads_expectName {x : String} :
    Reads expectName s x t ↔
      s.ahead.kind = .ident ∧ x = s.advance.current.literal ∧ t = s.advance := by
  simp [expectName]

@[simp] theorem reads_expectName_bind {f : String → Production β} {b : β} :
    Reads (expectName >>= f) s b u ↔
      s.ahead.kind = .ident ∧ Reads (f s.advance.current.literal) s.advance b u := by
  simp [reads_bind, and_assoc]

theorem reads_nested {p : Production α} {a : α} :
    Reads (nested p) s a t ↔
      s.depth < nestingLimit ∧ ∃ u, Reads p s.deeper a u ∧ t = u.shallower := by
  unfold Reads nested
  split
  · rename_i h
    constructor
    · rintro ⟨ha, rfl⟩
      exact ⟨h, _, ⟨ha, rfl⟩, rfl⟩
    · rintro ⟨-, u, ⟨ha, rfl⟩, rfl⟩
      exact ⟨ha, rfl⟩
  · rename_i h
    simp [h, tooDeep, fail]

@[simp] theorem reads_ite {c : Prop} [Decidable c] {p q : Production α} {a : α} :
    Reads (if c then p else q) s a t ↔ c ∧ Reads p s a t ∨ ¬ c ∧ Reads q s a t := by
  by_cases h : c <;> simp [h]

section Repetition

variable {wanted : Kind → Bool} {stops : wanted .endOfText = false} {p : Production α} {a : α}
  {as : List α}

theorem reads_whileAhead_nil :
    Reads (whileAhead wanted stops p) s [] t ↔ wanted s.ahead.kind = false ∧ t = s := by
  unfold Reads
  rw [whileAhead]
  by_cases h : wanted s.ahead.kind = true
  · rw [dif_pos h]
    dsimp only
    split
    · simp [h]
    · split <;> simp [h]
  · simp [h, eq_comm]

theorem reads_whileAhead_cons :
    Reads (whileAhead wanted stops p) s (a :: as) t ↔
      wanted s.ahead.kind = true ∧
        ∃ u, Reads p s.advance a u ∧ Reads (whileAhead wanted stops p) u as t := by
  show (whileAhead wanted stops p s).result = _ ∧ (whileAhead wanted stops p s).after = _ ↔ _
  rw [whileAhead]
  by_cases h : wanted s.ahead.kind = true
  · rw [dif_pos h]
    dsimp only
    split
    · rename_i e u le hp
      simp [not_reads_of_eq_error hp]
    · rename_i b u le hp
      split
      · rename_i e v le' hrest
        simp [h, reads_of_eq_ok hp, not_reads_of_eq_error hrest]
      · rename_i bs v le' hrest
        simp [h, reads_of_eq_ok hp, reads_of_eq_ok hrest, and_assoc]
  · simp [h]

variable {takes : Consumes p}

theorem reads_untilEnd_nil :
    Reads (untilEnd p takes) s [] t ↔ s.current.kind = .endOfText ∧ t = s := by
  unfold Reads
  rw [untilEnd]
  by_cases h : s.current.kind = .endOfText
  · simp [h, eq_comm]
  · rw [if_neg h]
    split
    · simp [h]
    · dsimp only
      split <;> simp [h]

theorem reads_untilEnd_cons :
    Reads (untilEnd p takes) s (a :: as) t ↔
      s.current.kind ≠ .endOfText ∧
        ∃ u, Reads p s a u ∧ Reads (untilEnd p takes) u as t := by
  show (untilEnd p takes s).result = _ ∧ (untilEnd p takes s).after = _ ↔ _
  rw [untilEnd]
  by_cases h : s.current.kind = .endOfText
  · simp [h]
  · rw [if_neg h]
    split
    · rename_i e u le hp
      simp [not_reads_of_eq_error hp]
    · rename_i b u le hp
      dsimp only
      split
      · rename_i e v le' hrest
        simp [h, reads_of_eq_ok hp, not_reads_of_eq_error hrest]
      · rename_i bs v le' hrest
        simp [h, reads_of_eq_ok hp, reads_of_eq_ok hrest, and_assoc]

end Repetition

/-! ## Moving on over words -/

@[simp] theorem current_advance (s : State) : s.advance.current = s.ahead := by
  unfold State.advance State.noteIllegal
  dsimp only
  split <;> rfl

@[simp] theorem levels_advance (s : State) : s.advance.levels = s.levels := by
  rw [State.levels, depth_advance, State.levels]

theorem advance_deeper (s : State) : s.deeper.advance = s.advance.deeper := by
  unfold State.advance State.noteIllegal State.deeper
  dsimp only
  split <;> rfl

@[simp] theorem ahead_deeper (s : State) : s.deeper.ahead = s.ahead := rfl

@[simp] theorem shallower_deeper (s : State) : s.deeper.shallower = s := rfl

/-- Moving on over the words `ws` leads from `s` to `t`. -/
def Passes : State → List Word → State → Prop
  | s, [], t => t = s
  | s, w :: ws, t => s.ahead.kind ≠ .endOfText ∧ s.ahead.word = w ∧ Passes s.advance ws t

@[simp] theorem passes_nil : Passes s [] t ↔ t = s := Iff.rfl

theorem passes_cons {w : Word} {ws : List Word} :
    Passes s (w :: ws) t ↔ s.ahead.kind ≠ .endOfText ∧ s.ahead.word = w ∧ Passes s.advance ws t :=
  Iff.rfl

/-- Moving on over a word of a given kind. -/
@[simp] theorem passes_word {k : Kind} (hk : k ≠ .endOfText) {l : String} {ws : List Word} :
    Passes s (⟨k, l⟩ :: ws) t ↔
      s.ahead.kind = k ∧ s.ahead.literal = l ∧ Passes s.advance ws t := by
  rw [passes_cons, Token.word, Word.mk.injEq]
  constructor
  · rintro ⟨-, ⟨hkind, hliteral⟩, h⟩
    exact ⟨hkind, hliteral, h⟩
  · rintro ⟨hkind, hliteral, h⟩
    exact ⟨hkind ▸ hk, ⟨hkind, hliteral⟩, h⟩

@[simp] theorem passes_append {ws vs : List Word} :
    Passes s (ws ++ vs) u ↔ ∃ t, Passes s ws t ∧ Passes t vs u := by
  induction ws generalizing s with
  | nil => simp
  | cons w ws ih => simp only [List.cons_append, passes_cons, ih, and_assoc, exists_and_left]

theorem Passes.levels {ws : List Word} (h : Passes s ws t) : t.levels = s.levels := by
  induction ws generalizing s with
  | nil => rw [h]
  | cons w ws ih => rw [ih h.2.2, levels_advance]

theorem passes_deeper {ws : List Word} :
    Passes s.deeper ws u ↔ ∃ t, Passes s ws t ∧ u = t.deeper := by
  induction ws generalizing s with
  | nil => simp
  | cons w ws ih => simp only [passes_cons, ahead_deeper, advance_deeper, ih, and_assoc,
      exists_and_left]

/-! ## Phrases between two states -/

/-- The words between `s` and `t` are a phrase of the sort `X` that says `a`. -/
def Spans (X : Phrase α) (s : State) (a : α) (t : State) : Prop := ∃ ws, X ws a ∧ Passes s ws t

theorem Spans.levels {X : Phrase α} {a : α} (h : Spans X s a t) : t.levels = s.levels := by
  obtain ⟨ws, -, hpass⟩ := h
  exact hpass.levels

/-- Where two sorts have the same phrases, they span the same. -/
theorem Spans.imp {X : Phrase α} {Y : Phrase β} {a : α} {b : β} (h : Spans X s a t)
    (hXY : ∀ ws, X ws a → Y ws b) : Spans Y s b t := by
  obtain ⟨ws, hX, hpass⟩ := h
  exact ⟨ws, hXY ws hX, hpass⟩

theorem spans_deeper {X : Phrase α} {a : α} :
    Spans X s.deeper a u ↔ ∃ t, Spans X s a t ∧ u = t.deeper := by
  simp only [Spans, passes_deeper]
  constructor
  · rintro ⟨ws, hX, t, hpass, rfl⟩
    exact ⟨t, ⟨ws, hX, hpass⟩, rfl⟩
  · rintro ⟨t, ⟨ws, hX, hpass⟩, rfl⟩
    exact ⟨ws, hX, t, hpass, rfl⟩

section Lists

variable {X : Phrase α} {a : α} {as : List α}

theorem spans_many_nil : Spans (Many X) s [] t ↔ t = s := by
  constructor
  · rintro ⟨ws, hX, hpass⟩
    cases hX
    exact hpass
  · rintro rfl
    exact ⟨[], .nil, rfl⟩

theorem spans_many_cons :
    Spans (Many X) s (a :: as) u ↔ ∃ t, Spans X s a t ∧ Spans (Many X) t as u := by
  constructor
  · rintro ⟨ws, hX, hpass⟩
    cases hX with
    | cons first more =>
      obtain ⟨t, h₁, h₂⟩ := passes_append.mp hpass
      exact ⟨t, ⟨_, first, h₁⟩, _, more, h₂⟩
  · rintro ⟨t, ⟨ws, first, h₁⟩, vs, more, h₂⟩
    exact ⟨ws ++ vs, .cons first more, passes_append.mpr ⟨t, h₁, h₂⟩⟩

theorem spans_moreItems_nil :
    Spans (MoreItems X) s [] t ↔ t = s ∨ s.ahead.kind = .comma ∧ t = s.advance := by
  constructor
  · rintro ⟨ws, hX, hpass⟩
    cases hX with
    | nil => exact .inl hpass
    | comma =>
      simp only [ne_eq, reduceCtorEq, not_false_eq_true, passes_word, passes_nil] at hpass
      exact .inr ⟨hpass.1, hpass.2.2⟩
  · rintro (rfl | ⟨hk, rfl⟩)
    · exact ⟨[], .nil, rfl⟩
    · exact ⟨_, .comma, by simp [hk]; rfl⟩

theorem spans_moreItems_cons :
    Spans (MoreItems X) s (a :: as) u ↔
      s.ahead.kind = .comma ∧ ∃ t, Spans X s.advance a t ∧ Spans (MoreItems X) t as u := by
  constructor
  · rintro ⟨ws, hX, hpass⟩
    cases hX with
    | cons item more =>
      simp only [ne_eq, reduceCtorEq, not_false_eq_true, passes_word, passes_append] at hpass
      obtain ⟨hk, -, t, h₁, h₂⟩ := hpass
      exact ⟨hk, t, ⟨_, item, h₁⟩, _, more, h₂⟩
  · rintro ⟨hk, t, ⟨ws, item, h₁⟩, vs, more, h₂⟩
    refine ⟨⟨.comma, s.ahead.literal⟩ :: (ws ++ vs), .cons item more, ?_⟩
    simpa [hk] using ⟨t, h₁, h₂⟩

theorem spans_items_nil : Spans (Items X) s [] t ↔ t = s := by
  constructor
  · rintro ⟨ws, hX, hpass⟩
    cases hX
    exact hpass
  · rintro rfl
    exact ⟨[], .nil, rfl⟩

theorem spans_items_cons :
    Spans (Items X) s (a :: as) u ↔ ∃ t, Spans X s a t ∧ Spans (MoreItems X) t as u := by
  constructor
  · rintro ⟨ws, hX, hpass⟩
    cases hX with
    | cons item more =>
      obtain ⟨t, h₁, h₂⟩ := passes_append.mp hpass
      exact ⟨t, ⟨_, item, h₁⟩, _, more, h₂⟩
  · rintro ⟨t, ⟨ws, item, h₁⟩, vs, more, h₂⟩
    exact ⟨ws ++ vs, .cons item more, passes_append.mpr ⟨t, h₁, h₂⟩⟩

theorem spans_bracketed :
    Spans (Bracketed X) s a u ↔ s.ahead.kind = .leftParen ∧
      ∃ t, Spans X s.advance a t ∧ t.ahead.kind = .rightParen ∧ u = t.advance := by
  constructor
  · rintro ⟨ws, hX, hpass⟩
    cases hX with
    | mk inside =>
      simp only [ne_eq, reduceCtorEq, not_false_eq_true, passes_word, passes_append,
        passes_nil] at hpass
      obtain ⟨hl, -, t, h, hr, -, hu⟩ := hpass
      exact ⟨hl, t, ⟨_, inside, h⟩, hr, hu⟩
  · rintro ⟨hl, t, ⟨ws, inside, h⟩, hr, rfl⟩
    exact ⟨⟨.leftParen, s.ahead.literal⟩ :: (ws ++ [⟨.rightParen, t.ahead.literal⟩]), .mk inside,
      by simp [hl]; exact ⟨t, h, hr, rfl, rfl⟩⟩

end Lists

end Grammar
end CircuitText
