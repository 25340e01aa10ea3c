import CircuitText.Proofs.Faults.Course
import CircuitText.Proofs.Nesting.Grammar

/-!
# The first word for which no level is left

When a text is followed through the grammar with `n` levels left, there may be a word that opens a
level although none is left, and the first such word is where reading has to end.
`Meets n X s σ` says that it stands at `σ`, for phrases of the marked sort `X` that begin in the
state `s`: the words before it are passed, the phrase could go on behind it, and it is the first
whose mark is `n`.

As for `Reads` and `Passes` there is one law for each operation on languages.  A word in a product
is met in the first factor, or in the second once the first is crossed with the levels there are.

* `Crosses`, `Meets` --- passing a phrase, and meeting a word for which no level is left;
* `Possible` --- sorts of phrase that occur;
* `meets_mul`, `meets_kstar`, `meets_nest` --- the laws.
-/

namespace CircuitText
namespace Grammar

open scoped Computability

variable {α : Type} {s t u : State} {σ : Span} {n : Nat} {k : Kind}

/-! ## Passing a phrase -/

/-- Moving on over words of `L` leads from `s` to `t`. -/
def Crosses (L : Language Word) (s t : State) : Prop := ∃ ws ∈ L, Passes s ws t

theorem crosses_mul {L M : Language Word} :
    Crosses (L * M) s u ↔ ∃ t, Crosses L s t ∧ Crosses M t u := by
  constructor
  · rintro ⟨_, ⟨ws, hws, vs, hvs, rfl⟩, hpass⟩
    obtain ⟨t, h, h'⟩ := passes_append.mp hpass
    exact ⟨t, ⟨ws, hws, h⟩, vs, hvs, h'⟩
  · rintro ⟨t, ⟨ws, hws, h⟩, vs, hvs, h'⟩
    exact ⟨ws ++ vs, ⟨ws, hws, vs, hvs, rfl⟩, passes_append.mpr ⟨t, h, h'⟩⟩

theorem crosses_ofKind (hk : k ≠ .endOfText) :
    Crosses (ofKind k) s t ↔ s.ahead.kind = k ∧ t = s.advance := by
  constructor
  · rintro ⟨_, ⟨l, rfl⟩, hpass⟩
    obtain ⟨hkind, -, ht⟩ := (passes_word hk).mp hpass
    exact ⟨hkind, ht⟩
  · rintro ⟨hkind, rfl⟩
    exact ⟨_, ⟨s.ahead.literal, rfl⟩, (passes_word hk).mpr ⟨hkind, rfl, rfl⟩⟩

theorem crosses_wordsOf {X : Phrase α} : Crosses (wordsOf X) s t ↔ ∃ a, Spans X s a t := by
  constructor
  · rintro ⟨ws, ⟨a, h⟩, hpass⟩
    exact ⟨a, ws, h, hpass⟩
  · rintro ⟨a, ws, h, hpass⟩
    exact ⟨ws, ⟨a, h⟩, hpass⟩

/-! ## Sorts of phrase that occur -/

/-- There is a phrase of this sort. -/
class Possible {β : Type} (L : Language β) : Prop where
  exists_mem : ∃ bs, bs ∈ L

namespace Possible

variable {β : Type} {L M : Language β} {X : Language Marked}

instance : Possible (1 : Language β) := ⟨[], rfl⟩

instance [Possible L] : Possible (L + M) :=
  let ⟨bs, h⟩ := exists_mem (L := L)
  ⟨bs, .inl h⟩

instance [Possible L] [Possible M] : Possible (L * M) :=
  let ⟨bs, h⟩ := exists_mem (L := L)
  let ⟨cs, h'⟩ := exists_mem (L := M)
  ⟨bs ++ cs, bs, h, cs, h', rfl⟩

instance : Possible L∗ := ⟨[], Language.nil_mem_kstar _⟩

instance : Possible (ofKind k) := ⟨_, "", rfl⟩

instance {X : Phrase α} [Occurs X] : Possible (wordsOf X) :=
  let ⟨ws, a, h⟩ := Occurs.exists_phrase (X := X)
  ⟨ws, a, h⟩

instance {L : Language Word} [Possible L] : Possible (plain L) :=
  let ⟨ws, h⟩ := exists_mem (L := L)
  ⟨_, ws, h, rfl⟩

instance [Possible X] : Possible (nest k X) :=
  let ⟨ms, h⟩ := exists_mem (L := X)
  ⟨_, "", ms, h, rfl⟩

instance [Possible X] : Possible (Marked.bracketed X) := inferInstanceAs (Possible (_ * _ * _))

instance [Possible X] : Possible (Marked.moreItems X) := inferInstanceAs (Possible (_ * _))

instance : Possible (Marked.list X) := inferInstanceAs (Possible (Marked.bracketed (1 + _)))

instance : Possible Marked.expressions := by
  rw [Marked.expressions_eq]
  exact ⟨[(⟨.ident, ""⟩, none)], .inl (.inl (.inl ⟨_, ⟨_, .register (x := "")⟩, rfl⟩))⟩

instance : Possible Marked.blocks := by
  rw [Marked.blocks_eq]
  infer_instance

end Possible

/-! ## Meeting a word for which no level is left -/

/-- In a phrase of the sort `X` that begins in `s`, the first word that opens a level when `n` are
open stands at `σ`. -/
def Meets (n : Nat) (X : Language Marked) (s : State) (σ : Span) : Prop :=
  ∃ front w back t, front ++ (w, some n) :: back ∈ X ∧ (∀ m ∈ front, m.2 ≠ some n) ∧
    Passes s (front.map Prod.fst) t ∧ t.ahead.word = w ∧ t.ahead.span = σ

variable {X Y : Language Marked}

/-- The word ahead is the first of a phrase. -/
theorem exists_first_of_meets (h : Meets n X s σ) : ∃ m vs, s.ahead.word :: vs ∈ within m X := by
  obtain ⟨front, _, back, t, hmem, -, hpass, rfl, -⟩ := h
  obtain ⟨vs, hvs⟩ := exists_cons_of_passes hpass (back.map Prod.fst)
  obtain ⟨m, hm⟩ := exists_map_fst_iff.mp ⟨_, hmem, rfl⟩
  rw [List.map_append, List.map_cons, hvs] at hm
  exact ⟨m, vs, hm⟩

@[simp] theorem not_meets_plain {L : Language Word} : ¬ Meets n (plain L) s σ := by
  rintro ⟨front, w, back, t, hmem, -⟩
  have := unmarked_of_mem_plain hmem (w, some n) (by simp)
  cases this

@[simp] theorem not_meets_one : ¬ Meets n 1 s σ := by
  rw [← map_one plain]
  exact not_meets_plain

theorem meets_add : Meets n (X + Y) s σ ↔ Meets n X s σ ∨ Meets n Y s σ := by
  simp only [Meets, Language.mem_add, or_and_right, exists_or]

/-- The word is met in the first part, or the first part is crossed and it is met in the second. -/
theorem meets_mul [Possible Y] :
    Meets n (X * Y) s σ ↔ Meets n X s σ ∨ ∃ t, Crosses (within n X) s t ∧ Meets n Y t σ := by
  constructor
  · rintro ⟨front, w, back, t, ⟨ms, hms, ks, hks, heq⟩, hfront, hpass, hw, hσ⟩
    rcases List.append_eq_append_iff.mp heq with ⟨vs, rfl, rfl⟩ | ⟨_ | ⟨m, vs⟩, rfl, hback⟩
    · -- the first part lies before the word
      obtain ⟨hms', hvs⟩ := List.forall_mem_append.mp hfront
      rw [List.map_append, passes_append] at hpass
      obtain ⟨r, hpass, hpass'⟩ := hpass
      exact .inr ⟨r, ⟨_, ⟨ms, hms, hms', rfl⟩, hpass⟩, vs, w, back, t, hks, hvs, hpass', hw, hσ⟩
    · rw [List.append_nil] at hms
      rw [List.nil_append] at hback
      subst hback
      exact .inr ⟨t, ⟨_, ⟨front, hms, hfront, rfl⟩, hpass⟩, [], w, back, t, hks, by simp, rfl, hw,
        hσ⟩
    · obtain ⟨rfl, -⟩ := List.cons.inj hback
      exact .inl ⟨front, w, vs, t, hms, hfront, hpass, hw, hσ⟩
  · rintro (⟨front, w, back, t, hmem, hfront, hpass, hw, hσ⟩ |
      ⟨r, ⟨_, ⟨ms, hms, hms', rfl⟩, hpass⟩, front, w, back, t, hmem, hfront, hpass', hw, hσ⟩)
    · obtain ⟨ks, hks⟩ := Possible.exists_mem (L := Y)
      exact ⟨front, w, back ++ ks, t, ⟨_, hmem, ks, hks, by simp⟩, hfront, hpass, hw, hσ⟩
    · refine ⟨ms ++ front, w, back, t, ⟨ms, hms, _, hmem, by simp⟩,
        List.forall_mem_append.mpr ⟨hms', hfront⟩, ?_, hw, hσ⟩
      rw [List.map_append]
      exact passes_append.mpr ⟨r, hpass, hpass'⟩

theorem meets_kstar :
    Meets n X∗ s σ ↔ Meets n X s σ ∨ ∃ t, Crosses (within n X) s t ∧ Meets n X∗ t σ := by
  conv_lhs => rw [← Language.one_add_self_mul_kstar_eq_kstar]
  rw [meets_add, meets_mul, or_iff_right not_meets_one]

/-- The word ahead is met if no level is left for it, and otherwise one inside is met with one level
less. -/
theorem meets_nest [Possible X] (hk : k ≠ .endOfText) :
    Meets n (nest k X) s σ ↔ s.ahead.kind = k ∧
      (n = 0 ∧ s.ahead.span = σ ∨ ∃ m, n = m + 1 ∧ Meets m X s.advance σ) := by
  constructor
  · rintro ⟨front, w, back, t, ⟨l, inside, hinside, heq⟩, hfront, hpass, hw, hσ⟩
    rcases front with _ | ⟨m, front⟩
    · obtain ⟨hword, -⟩ := List.cons.inj heq
      obtain ⟨rfl, hmark⟩ := Prod.mk.inj hword
      obtain rfl := passes_nil.mp hpass
      exact ⟨congrArg Word.kind hw, .inl ⟨(Option.some.inj hmark).symm, hσ⟩⟩
    · obtain ⟨rfl, hinner⟩ := List.cons.inj heq
      obtain ⟨hkind, -, hpass⟩ := (passes_word hk).mp hpass
      rcases n with _ | n
      · exact absurd rfl (hfront _ (List.mem_cons_self ..))
      obtain ⟨front, behind, rfl, rfl, hbehind⟩ := List.map_eq_append_iff.mp hinner
      obtain ⟨⟨v, mark⟩, back, rfl, hm, rfl⟩ := List.map_eq_cons_iff.mp hbehind
      have hmark : mark = some n := mark_deeper_eq_some.mp (congrArg Prod.snd hm)
      have hv : v = w := congrArg Prod.fst hm
      rw [map_fst_deeper] at hpass
      refine ⟨hkind, .inr ⟨n, rfl, front, w, back, t, hv ▸ hmark ▸ hinside, fun m hmem heq => ?_,
        hpass, hw, hσ⟩⟩
      exact hfront (Marked.deeper m) (List.mem_cons_of_mem _ (List.mem_map_of_mem hmem))
        (mark_deeper_eq_some.mpr heq)
  · rintro ⟨hkind, ⟨rfl, hσ⟩ |
      ⟨n, rfl, front, w, back, t, hmem, hfront, hpass, hw, hσ⟩⟩
    · obtain ⟨ms, hms⟩ := Possible.exists_mem (L := X)
      exact ⟨[], ⟨k, s.ahead.literal⟩, ms.map Marked.deeper, s, ⟨_, ms, hms, rfl⟩, by simp, rfl,
        by rw [← hkind]; rfl, hσ⟩
    · refine ⟨(⟨k, s.ahead.literal⟩, some 0) :: front.map Marked.deeper, w,
        back.map Marked.deeper, t, ⟨s.ahead.literal, _, hmem, by simp [Marked.deeper]⟩,
        List.forall_mem_cons.mpr ⟨by simp, fun m' hm' => ?_⟩, ?_, hw, hσ⟩
      · obtain ⟨m, hm, rfl⟩ := List.mem_map.mp hm'
        exact fun heq => hfront m hm (mark_deeper_eq_some.mp heq)
      · rw [List.map_cons, map_fst_deeper]
        exact (passes_word hk).mpr ⟨hkind, rfl, hpass⟩

/-- Brackets that open no level leave it to what is inside. -/
theorem meets_bracketed [Possible X] :
    Meets n (Marked.bracketed X) s σ ↔ s.ahead.kind = .leftParen ∧ Meets n X s.advance σ := by
  simp only [Marked.bracketed, meets_mul, not_meets_plain, false_or, and_false, exists_false,
    or_false, within_plain, ne_eq, reduceCtorEq, not_false_eq_true, crosses_ofKind, and_assoc,
    exists_and_left, exists_eq_left]

/-- The word ahead tells whether the phrase begins with a bracket. -/
theorem meets_bare :
    Meets n (Marked.bare X) s σ ↔ Meets n X s σ ∧ s.ahead.kind ≠ .leftParen := by
  have hbegins : ∀ {front : List Marked} {back t}, Passes s (front.map Prod.fst) t →
      (Begins .leftParen ((front ++ (t.ahead.word, some n) :: back).map Prod.fst) ↔
        s.ahead.kind = .leftParen) := by
    intro front back t hpass
    obtain ⟨vs, hvs⟩ := exists_cons_of_passes hpass (back.map Prod.fst)
    rw [List.map_append, List.map_cons, hvs]
    constructor
    · rintro ⟨w, vs, heq, hw⟩
      obtain ⟨rfl, -⟩ := List.cons.inj heq
      exact hw
    · exact fun h => ⟨_, _, rfl, h⟩
  constructor
  · rintro ⟨front, _, back, t, ⟨hmem, hbare⟩, hfront, hpass, rfl, hσ⟩
    rw [hbegins hpass] at hbare
    exact ⟨⟨front, _, back, t, hmem, hfront, hpass, rfl, hσ⟩, hbare⟩
  · rintro ⟨⟨front, _, back, t, hmem, hfront, hpass, rfl, hσ⟩, hbare⟩
    rw [ne_eq, ← hbegins hpass] at hbare
    exact ⟨front, _, back, t, ⟨hmem, hbare⟩, hfront, hpass, rfl, hσ⟩

/-- One level down the same words are met. -/
@[simp] theorem meets_deeper : Meets n X s.deeper σ ↔ Meets n X s σ := by
  constructor
  · rintro ⟨front, w, back, t, hmem, hfront, hpass, hw, hσ⟩
    obtain ⟨r, hpass', rfl⟩ := passes_deeper.mp hpass
    exact ⟨front, w, back, r, hmem, hfront, hpass', hw, hσ⟩
  · rintro ⟨front, w, back, t, hmem, hfront, hpass, hw, hσ⟩
    exact ⟨front, w, back, t.deeper, hmem, hfront, passes_deeper.mpr ⟨t, hpass, rfl⟩, hw, hσ⟩

end Grammar
end CircuitText
