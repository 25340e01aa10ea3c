import CircuitText.Proofs.Parsing.Phrase
import Mathlib.Algebra.Order.BigOperators.Group.List
import Mathlib.Algebra.Order.Group.Nat
import Mathlib.Computability.Language
import Mathlib.Order.FixedPoints
import Mathlib.Order.CompletePartialOrder

/-!
# Words that open a level

To tell how deep a text is nested, the words of a phrase are *marked*: a word that opens a level
carries the number of levels that are open before it, and the other words carry nothing.  A sort of
phrase is then a language of marked words.  Levels are counted from the beginning of the phrase, so
that a phrase which is nested in another has its marks raised by one.

`within n` keeps what gets by with `n` levels and forgets the marks.  It respects all operations on
languages, and it passes from a nested phrase to what is inside with one level less; this is how the
limit of the grammar is found again in the marks.

* `ofKind`, `wordsOf` --- what a phrase is put together from;
* `Marked`, `plain`, `nest` --- marked words, phrases that open no level, phrases that open one;
* `within`, `within_nest`, `within_kstar` --- what gets by with so many levels;
* `exists_map_fst_iff` --- without its marks, a phrase gets by with some number of levels.
-/

namespace CircuitText
namespace Grammar

open scoped Computability

variable {α : Type} {k : Kind} {n : Nat} {ws : List Word}

/-! ## Languages of words -/

/-- The words of a kind. -/
def ofKind (k : Kind) : Language Word := {ws | ∃ l, ws = [⟨k, l⟩]}

/-- The words of the phrases of a sort, whatever they say. -/
def wordsOf (X : Phrase α) : Language Word := {ws | ∃ a, X ws a}

theorem mem_ofKind : ws ∈ ofKind k ↔ ∃ l, [⟨k, l⟩] = ws := exists_congr fun _ => eq_comm

theorem mem_ofKind_mul {L : Language Word} :
    ws ∈ ofKind k * L ↔ ∃ l, ∃ vs ∈ L, ⟨k, l⟩ :: vs = ws := by
  constructor
  · rintro ⟨_, ⟨l, rfl⟩, vs, hvs, rfl⟩
    exact ⟨l, vs, hvs, rfl⟩
  · rintro ⟨l, vs, hvs, rfl⟩
    exact ⟨_, ⟨l, rfl⟩, vs, hvs, rfl⟩

theorem mem_wordsOf {X : Phrase α} : ws ∈ wordsOf X ↔ ∃ a, X ws a := Iff.rfl

theorem mem_wordsOf_mul {X : Phrase α} {L : Language Word} :
    ws ∈ wordsOf X * L ↔ ∃ us a, X us a ∧ ∃ vs ∈ L, us ++ vs = ws := by
  constructor
  · rintro ⟨us, ⟨a, h⟩, vs, hvs, rfl⟩
    exact ⟨us, a, h, vs, hvs, rfl⟩
  · rintro ⟨us, a, h, vs, hvs, rfl⟩
    exact ⟨us, ⟨a, h⟩, vs, hvs, rfl⟩

/-! ## Marked words -/

/-- A word, and if it opens a level then how many levels are open before it. -/
abbrev Marked : Type := Word × Option Nat

variable {X : Language Marked}

/-- The same word where one more level is open. -/
def Marked.deeper (m : Marked) : Marked := (m.1, m.2.map (· + 1))

/-- Words that open no level. -/
def plain : Language Word →+* Language Marked := Language.map (·, none)

/-- A word of a kind that opens a level, and behind it what is nested there. -/
def nest (k : Kind) (X : Language Marked) : Language Marked :=
  {ms | ∃ l, ∃ inside ∈ X, (⟨k, l⟩, some 0) :: inside.map Marked.deeper = ms}

theorem mem_plain {L : Language Word} {ms : List Marked} :
    ms ∈ plain L ↔ ∃ ws ∈ L, ws.map (·, none) = ms := Iff.rfl

/-- More may be nested where more may stand. -/
@[gcongr]
theorem nest_mono {Y : Language Marked} (h : X ≤ Y) : nest k X ≤ nest k Y := by
  rintro _ ⟨l, inside, hinside, rfl⟩
  exact ⟨l, inside, h hinside, rfl⟩

theorem mark_deeper_eq_some {m : Marked} : m.deeper.2 = some (n + 1) ↔ m.2 = some n := by
  simp [Marked.deeper]

theorem map_fst_deeper (ms : List Marked) :
    (ms.map Marked.deeper).map Prod.fst = ms.map Prod.fst := by
  simp [Marked.deeper]

theorem map_fst_plain (ws : List Word) :
    (ws.map fun w => ((w, none) : Marked)).map Prod.fst = ws := by
  simp [Function.comp_def]

theorem unmarked_of_mem_plain {L : Language Word} {ms : List Marked} (h : ms ∈ plain L) :
    ∀ m ∈ ms, m.2 = none := by
  obtain ⟨ws, -, rfl⟩ := mem_plain.mp h
  simp

/-! ## What gets by with so many levels -/

/-- The phrases in which no word opens a level when `n` are open, without their marks. -/
def within (n : Nat) : Language Marked →+* Language Word where
  toFun X := {ws | ∃ ms ∈ X, (∀ m ∈ ms, m.2 ≠ some n) ∧ ms.map Prod.fst = ws}
  map_zero' := by
    ext ws
    exact ⟨fun ⟨_, h, _⟩ => h, fun h => h.elim⟩
  map_one' := by
    ext ws
    constructor
    · rintro ⟨_, rfl, -, rfl⟩
      rfl
    · rintro rfl
      exact ⟨[], rfl, by simp, rfl⟩
  map_add' X Y := by
    ext ws
    constructor
    · rintro ⟨ms, hms | hms, hn, rfl⟩
      · exact .inl ⟨ms, hms, hn, rfl⟩
      · exact .inr ⟨ms, hms, hn, rfl⟩
    · rintro (⟨ms, hms, hn, rfl⟩ | ⟨ms, hms, hn, rfl⟩)
      · exact ⟨ms, .inl hms, hn, rfl⟩
      · exact ⟨ms, .inr hms, hn, rfl⟩
  map_mul' X Y := by
    ext ws
    constructor
    · rintro ⟨_, ⟨ms, hms, ks, hks, rfl⟩, hn, rfl⟩
      obtain ⟨hms', hks'⟩ := List.forall_mem_append.mp hn
      exact ⟨_, ⟨ms, hms, hms', rfl⟩, _, ⟨ks, hks, hks', rfl⟩, List.map_append.symm⟩
    · rintro ⟨_, ⟨ms, hms, hms', rfl⟩, _, ⟨ks, hks, hks', rfl⟩, rfl⟩
      exact ⟨_, ⟨ms, hms, ks, hks, rfl⟩, List.forall_mem_append.mpr ⟨hms', hks'⟩,
        List.map_append⟩

theorem mem_within :
    ws ∈ within n X ↔ ∃ ms ∈ X, (∀ m ∈ ms, m.2 ≠ some n) ∧ ms.map Prod.fst = ws := Iff.rfl

@[simp] theorem within_plain (L : Language Word) : within n (plain L) = L := by
  ext ws
  constructor
  · rintro ⟨_, ⟨vs, hvs, rfl⟩, -, rfl⟩
    rwa [map_fst_plain]
  · exact fun h => ⟨_, ⟨ws, h, rfl⟩, by simp, map_fst_plain ws⟩

@[simp] theorem within_kstar (X : Language Marked) : within n X∗ = (within n X)∗ := by
  rw [Language.kstar_eq_iSup_pow, Language.kstar_eq_iSup_pow]
  ext ws
  simp only [mem_within, Language.mem_iSup, ← map_pow]
  constructor
  · rintro ⟨ms, ⟨i, hms⟩, hn, rfl⟩
    exact ⟨i, ms, hms, hn, rfl⟩
  · rintro ⟨i, ms, hms, hn, rfl⟩
    exact ⟨ms, ⟨i, hms⟩, hn, rfl⟩

/-- Where no level is left nothing is nested. -/
@[simp] theorem within_nest_zero : within 0 (nest k X) = 0 := by
  ext ws
  constructor
  · rintro ⟨_, ⟨l, inside, -, rfl⟩, hn, -⟩
    exact absurd rfl (hn _ (List.mem_cons_self ..))
  · exact fun h => h.elim

/-- What is nested has one level less. -/
@[simp] theorem within_nest_succ : within (n + 1) (nest k X) = ofKind k * within n X := by
  ext ws
  rw [mem_ofKind_mul]
  constructor
  · rintro ⟨_, ⟨l, inside, hinside, rfl⟩, hn, rfl⟩
    refine ⟨l, _, ⟨inside, hinside, fun m hm heq => ?_, rfl⟩, by
      rw [List.map_cons, map_fst_deeper]⟩
    exact hn m.deeper (List.mem_cons_of_mem _ (List.mem_map_of_mem hm))
      (mark_deeper_eq_some.mpr heq)
  · rintro ⟨l, _, ⟨inside, hinside, hn, rfl⟩, rfl⟩
    refine ⟨_, ⟨l, inside, hinside, rfl⟩, List.forall_mem_cons.mpr ⟨by simp, fun m' hm' => ?_⟩, by
      rw [List.map_cons, map_fst_deeper]⟩
    obtain ⟨m, hm, rfl⟩ := List.mem_map.mp hm'
    exact fun heq => hn m hm (mark_deeper_eq_some.mp heq)

/-- What is nested are the phrases of one level less, if there is a level left. -/
theorem within_nest {Y : Nat → Phrase α} (h : ∀ m, n = m + 1 → within m X = wordsOf (Y m)) :
    within n (nest k X) = ofKind k * wordsOf (Deeper Y n) := by
  cases n with
  | zero =>
    have hnone : wordsOf (Deeper Y 0) = 0 := by
      ext ws
      simp [mem_wordsOf, Deeper]
    rw [within_nest_zero, hnone, mul_zero]
  | succ n =>
    have hone : wordsOf (Deeper Y (n + 1)) = wordsOf (Y n) := by
      ext ws
      simp [mem_wordsOf, Deeper]
    rw [within_nest_succ, hone, h n rfl]

/-- Without its marks, every phrase gets by with some number of levels. -/
theorem exists_map_fst_iff :
    (∃ ms ∈ X, ms.map Prod.fst = ws) ↔ ∃ n, ws ∈ within n X := by
  constructor
  · rintro ⟨ms, hms, rfl⟩
    -- more levels than any mark has open
    refine ⟨(ms.map fun m => m.2.getD 0).sum + 1, ms, hms, fun m hm heq => ?_, rfl⟩
    have hle : m.2.getD 0 ≤ (ms.map fun m => m.2.getD 0).sum :=
      List.le_sum_of_mem (List.mem_map_of_mem hm)
    rw [heq, Option.getD_some] at hle
    omega
  · rintro ⟨n, ms, hms, -, rfl⟩
    exact ⟨ms, hms, rfl⟩

end Grammar
end CircuitText
