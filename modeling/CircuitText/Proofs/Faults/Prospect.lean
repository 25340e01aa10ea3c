import CircuitText.Proofs.Parsing.Phrase

/-!
# What may come next

While a text is being read the words behind make up a *prospect*: the lists of words that would
complete the text.  There is always one, for a prospect without any would mean that reading had gone
on too far.  A rule of the grammar becomes an operation on prospects, which says what must come
before the words that follow the phrase.

* `Prospect` --- ways to go on, of which there is one at least;
* `Prospect.word`, `Prospect.or`, `Prospect.before` --- a word, a choice, a phrase;
* `before_many`, `before_items`, `before_bracketed` --- repetition, lists and brackets.
-/

namespace CircuitText
namespace Grammar

variable {α : Type}

/-- Ways in which a text may go on. -/
structure Prospect where
  /-- The lists of words that may come. -/
  allows : List Word → Prop
  /-- There is a way to go on. -/
  exists_allowed : ∃ ws, allows ws

/-- The phrase occurs at all. -/
class Occurs (X : Phrase α) : Prop where
  exists_phrase : ∃ ws a, X ws a

namespace Prospect

variable {K L : Prospect} {ws vs : List Word} {w : Word} {k : Kind}

@[ext] theorem ext (h : ∀ ws, K.allows ws ↔ L.allows ws) : K = L := by
  cases K
  cases L
  simp only [mk.injEq]
  exact funext fun ws => propext (h ws)

/-! ## Operations -/

/-- A word with a certain property, and then what `K` allows. -/
def next (p : Word → Prop) (h : ∃ w, p w) (K : Prospect) : Prospect where
  allows
    | [] => False
    | w :: ws => p w ∧ K.allows ws
  exists_allowed :=
    let ⟨w, hw⟩ := h
    let ⟨ws, hws⟩ := K.exists_allowed
    ⟨w :: ws, hw, hws⟩

/-- A word of a kind. -/
def word (k : Kind) (K : Prospect) : Prospect := next (·.kind = k) ⟨⟨k, ""⟩, rfl⟩ K

/-- Either of two ways to go on. -/
protected def or (K L : Prospect) : Prospect where
  allows ws := K.allows ws ∨ L.allows ws
  exists_allowed := K.exists_allowed.imp fun _ => .inl

/-- A phrase, and then what `K` allows. -/
def before (X : Phrase α) [Occurs X] (K : Prospect) : Prospect where
  allows ws := ∃ vs a rest, ws = vs ++ rest ∧ X vs a ∧ K.allows rest
  exists_allowed :=
    let ⟨vs, a, hvs⟩ := Occurs.exists_phrase (X := X)
    let ⟨rest, hrest⟩ := K.exists_allowed
    ⟨vs ++ rest, vs, a, rest, rfl, hvs, hrest⟩

@[simp] theorem allows_next_cons {p : Word → Prop} {h : ∃ w, p w} :
    (next p h K).allows (w :: ws) ↔ p w ∧ K.allows ws := Iff.rfl

@[simp] theorem not_allows_word_nil : ¬ (word k K).allows [] := id

@[simp] theorem allows_word_cons : (word k K).allows (w :: ws) ↔ w.kind = k ∧ K.allows ws := Iff.rfl

theorem allows_word : (word k K).allows ws ↔ ∃ l rest, ws = ⟨k, l⟩ :: rest ∧ K.allows rest := by
  cases ws with
  | nil => simp
  | cons w ws =>
    obtain ⟨k', l⟩ := w
    constructor
    · rintro ⟨rfl, hws⟩
      exact ⟨l, ws, rfl, hws⟩
    · rintro ⟨l, rest, heq, hrest⟩
      obtain ⟨⟨⟩, rfl⟩ := List.cons.inj heq
      exact ⟨rfl, hrest⟩

@[simp] theorem allows_or : (K.or L).allows ws ↔ K.allows ws ∨ L.allows ws := Iff.rfl

theorem word_or : word k (K.or L) = (word k K).or (word k L) := by
  ext ws
  cases ws with
  | nil => simp
  | cons w ws => simp [and_or_left]

section Before

variable {X : Phrase α} [Occurs X] {a : α}

theorem allows_before :
    (before X K).allows ws ↔ ∃ vs a rest, ws = vs ++ rest ∧ X vs a ∧ K.allows rest := Iff.rfl

theorem allows_before_append (h : X vs a) (hK : K.allows ws) : (before X K).allows (vs ++ ws) :=
  ⟨vs, a, ws, rfl, h, hK⟩

theorem allows_before_of_imp (h : ∀ ws, K.allows ws → L.allows ws) :
    (before X K).allows ws → (before X L).allows ws := by
  rintro ⟨vs, a, rest, rfl, hvs, hrest⟩
  exact ⟨vs, a, rest, rfl, hvs, h _ hrest⟩

theorem before_or : before X (K.or L) = (before X K).or (before X L) := by
  ext ws
  constructor
  · rintro ⟨vs, a, rest, rfl, hvs, hrest | hrest⟩
    · exact .inl ⟨vs, a, rest, rfl, hvs, hrest⟩
    · exact .inr ⟨vs, a, rest, rfl, hvs, hrest⟩
  · rintro (h | h)
    · exact allows_before_of_imp (fun _ => .inl) h
    · exact allows_before_of_imp (fun _ => .inr) h

end Before

/-- No way to go on begins with a word of the kind. -/
def Avoids (K : Prospect) (k : Kind) : Prop := ∀ {w ws}, K.allows (w :: ws) → w.kind ≠ k

theorem avoids_word {j k : Kind} (h : j ≠ k) : (word j K).Avoids k := fun hw => hw.1 ▸ h

theorem Avoids.or (hK : K.Avoids k) (hL : L.Avoids k) : (K.or L).Avoids k :=
  fun h => h.elim hK hL

end Prospect

open Prospect

variable {K L : Prospect} {ws vs : List Word} {w : Word} {k : Kind}

/-! ## Repetition, lists and brackets -/

instance {X : Phrase α} : Occurs (Many X) := ⟨_, _, .nil⟩

instance {X : Phrase α} : Occurs (Items X) := ⟨_, _, .nil⟩

instance {X : Phrase α} : Occurs (MoreItems X) := ⟨_, _, .nil⟩

instance {X : Phrase α} [Occurs X] : Occurs (Bracketed X) :=
  let ⟨_, _, h⟩ := Occurs.exists_phrase (X := X)
  ⟨_, _, .mk (l := "") (r := "") h⟩

section Lists

variable {X : Phrase α} [Occurs X]

theorem before_many : before (Many X) K = K.or (before X (before (Many X) K)) := by
  ext ws
  constructor
  · rintro ⟨vs, as, rest, rfl, hvs, hrest⟩
    cases hvs with
    | nil => exact .inl hrest
    | cons first more =>
      rw [List.append_assoc]
      exact .inr (allows_before_append first (allows_before_append more hrest))
  · rintro (h | ⟨vs, a, _, rfl, hvs, vs', as, rest, rfl, hvs', hrest⟩)
    · exact ⟨[], [], ws, rfl, .nil, h⟩
    · rw [← List.append_assoc]
      exact allows_before_append (Many.cons hvs hvs') hrest

theorem before_moreItems :
    before (MoreItems X) K =
      K.or (word .comma (K.or (before X (before (MoreItems X) K)))) := by
  ext ws
  constructor
  · rintro ⟨vs, as, rest, rfl, hvs, hrest⟩
    cases hvs with
    | nil => exact .inl hrest
    | comma => exact .inr ⟨rfl, .inl hrest⟩
    | cons item more =>
      rw [List.cons_append, List.append_assoc]
      exact .inr ⟨rfl, .inr (allows_before_append item (allows_before_append more hrest))⟩
  · rintro (h | h)
    · exact ⟨[], [], ws, rfl, .nil, h⟩
    · obtain ⟨c, ws, rfl, hmore⟩ := allows_word.mp h
      rcases hmore with hrest | ⟨vs, a, _, rfl, hvs, vs', as, rest, rfl, hvs', hrest⟩
      · exact allows_before_append (MoreItems.comma (X := X) (c := c)) hrest
      · rw [← List.append_assoc]
        exact allows_before_append (MoreItems.cons (c := c) hvs hvs') hrest

theorem before_items :
    before (Items X) K = K.or (before X (before (MoreItems X) K)) := by
  ext ws
  constructor
  · rintro ⟨vs, as, rest, rfl, hvs, hrest⟩
    cases hvs with
    | nil => exact .inl hrest
    | cons item more =>
      rw [List.append_assoc]
      exact .inr (allows_before_append item (allows_before_append more hrest))
  · rintro (h | ⟨vs, a, _, rfl, hvs, vs', as, rest, rfl, hvs', hrest⟩)
    · exact ⟨[], [], ws, rfl, .nil, h⟩
    · rw [← List.append_assoc]
      exact allows_before_append (Items.cons hvs hvs') hrest

theorem before_bracketed :
    before (Bracketed X) K = word .leftParen (before X (word .rightParen K)) := by
  ext ws
  constructor
  · rintro ⟨_, a, rest, rfl, ⟨inside⟩, hrest⟩
    rw [List.cons_append, List.append_assoc]
    exact ⟨rfl, allows_before_append inside ⟨rfl, hrest⟩⟩
  · intro h
    obtain ⟨l, _, rfl, vs, a, _, rfl, inside, hclose⟩ := allows_word.mp h
    obtain ⟨r, rest, rfl, hrest⟩ := allows_word.mp hclose
    refine ⟨_, a, rest, ?_, .mk (l := l) (r := r) inside, hrest⟩
    simp

end Lists

end Grammar
end CircuitText
