import CircuitText.Proofs.Faults.Comparison
import CircuitText.Proofs.Faults.Prospect
import CircuitText.Proofs.Parsing.Expression

/-!
# Where reading may stop

Productions are followed here together with the prospect of what may come.  Reading is in its course
as long as the words behind it have left a prospect; when it fails it fails at a word, and a failure
that blames the structure of the text blames a word which the prospect does not allow.

A production looks at no more than one word ahead, so a prospect need be known only as far as it
begins with that word.  `Leaves s L t M` says that moving on from `s` to `t` leaves `M` of the
prospect `L` in this sense.  In `Course p r s L Q` the production `p` is started in `r`, which is
`s` or, when `p` is entered with its first word in `current`, the state after `s`; so `s` is always
the state in which the next word of `L` is ahead.

* `Leaves`, `leaves_step`, `leaves_restrict` --- the prospect after words, and after a look ahead;
* `Stopped` --- where a failure may happen and what it may blame;
* `Course`, `course_bind`, `course_whileAhead`, … --- the laws of productions that keep their
  course.
-/

namespace CircuitText
namespace Grammar

open Prospect

variable {α β : Type} {r s t u : State} {K L M : Prospect} {k : Kind}

/-! ## What is left of a prospect -/

/-- Moving on from `s` to `t` leaves `M` of the prospect `L`, as far as the word ahead shows. -/
def Leaves (s : State) (L : Prospect) (t : State) (M : Prospect) : Prop :=
  ∃ ws, Passes s ws t ∧ (∀ rest, M.allows rest → L.allows (ws ++ rest)) ∧
    ∀ rest, L.allows (ws ++ t.ahead.word :: rest) → M.allows (t.ahead.word :: rest)

theorem Leaves.refl (s : State) (L : Prospect) : Leaves s L s L :=
  ⟨[], rfl, fun _ => id, fun _ => id⟩

/-- The words that are passed begin with the word ahead. -/
theorem exists_cons_of_passes {ws : List Word} (h : Passes s ws t) (rest : List Word) :
    ∃ vs, ws ++ t.ahead.word :: rest = s.ahead.word :: vs := by
  cases ws with
  | nil =>
    obtain rfl := passes_nil.mp h
    exact ⟨rest, rfl⟩
  | cons w ws =>
    obtain ⟨-, rfl, -⟩ := passes_cons.mp h
    exact ⟨_, rfl⟩

theorem Leaves.trans (h : Leaves s K t L) (h' : Leaves t L u M) : Leaves s K u M := by
  obtain ⟨ws, hws, hK, hL⟩ := h
  obtain ⟨vs, hvs, hL', hM⟩ := h'
  refine ⟨ws ++ vs, passes_append.mpr ⟨t, hws, hvs⟩, fun rest hrest => ?_, fun rest hrest => ?_⟩
  · rw [List.append_assoc]
    exact hK _ (hL' rest hrest)
  · obtain ⟨us, hus⟩ := exists_cons_of_passes hvs rest
    rw [List.append_assoc, hus] at hrest
    exact hM rest (hus ▸ hL us hrest)

/-- Moving on over the word ahead. -/
theorem leaves_step (hend : s.ahead.kind ≠ .endOfText)
    (h : ∀ ws, L.allows (s.ahead.word :: ws) ↔ M.allows ws) : Leaves s L s.advance M :=
  ⟨[s.ahead.word], ⟨hend, rfl, rfl⟩, fun rest => (h rest).mpr, fun _ => (h _).mp⟩

/-- The word ahead rules out a part of the prospect. -/
theorem leaves_restrict (hM : ∀ ws, M.allows ws → L.allows ws)
    (hL : ∀ ws, L.allows (s.ahead.word :: ws) → M.allows (s.ahead.word :: ws)) : Leaves s L s M :=
  ⟨[], rfl, hM, hL⟩

theorem leaves_word (hs : s.ahead.kind = k) (hk : k ≠ .endOfText) :
    Leaves s (word k K) s.advance K :=
  leaves_step (hs ▸ hk) fun _ => and_iff_right hs

/-! The word ahead may belong to one side of a choice only. -/

theorem leaves_left (hs : s.ahead.kind = k) (hL : L.Avoids k) : Leaves s (K.or L) s K :=
  leaves_restrict (fun _ => .inl) fun _ hws => hws.resolve_right fun h => hL h hs

theorem leaves_right (hs : s.ahead.kind = k) (hK : K.Avoids k) : Leaves s (K.or L) s L :=
  leaves_restrict (fun _ => .inr) fun _ hws => hws.resolve_left fun h => hK h hs

theorem leaves_left_of_ne (hs : s.ahead.kind ≠ k) : Leaves s (K.or (word k L)) s K :=
  leaves_restrict (fun _ => .inl) fun _ hws => hws.resolve_right fun h => hs h.1

theorem leaves_right_of_ne (hs : s.ahead.kind ≠ k) : Leaves s ((word k K).or L) s L :=
  leaves_restrict (fun _ => .inr) fun _ hws => hws.resolve_left fun h => hs h.1

theorem Leaves.levels (h : Leaves s L t M) : t.levels = s.levels := by
  obtain ⟨ws, hws, -⟩ := h
  exact hws.levels

/-- One level down the same words are passed. -/
theorem exists_of_leaves_deeper (h : Leaves s.deeper L u M) :
    ∃ t, u = t.deeper ∧ Leaves s L t M := by
  obtain ⟨ws, hws, hM, hL⟩ := h
  obtain ⟨t, hpass, rfl⟩ := passes_deeper.mp hws
  exact ⟨t, rfl, ws, hpass, hM, hL⟩

/-! ## Productions that keep their course -/

/-- A production that was to read a word of `M` next has stopped in `u` with a fault: it had looked
at the word ahead of `t` or moved on to it, and only a word that `M` does not allow is blamed for
the structure. -/
structure Stopped (t : State) (M : Prospect) (f : Fault) (u : State) : Prop where
  place : u = t.note f ∨ u = t.advance.note f
  blame : f.cause.category = .structural →
    f.span = t.ahead.span ∧ ∀ ws, ¬ M.allows (t.ahead.word :: ws)

/-- The outcome of a production that was to read the words of `L` from `s` on. -/
inductive Follows (s : State) (L : Prospect) (Q : α → State → State → Prospect → Prop) {r : State} :
    Outcome r α → Prop
  | ok {a : α} {u t : State} {M : Prospect} {le : u.remaining ≤ r.remaining}
      (leaves : Leaves s L t M) (holds : Q a u t M) : Follows s L Q ⟨.ok a, u, le⟩
  | error {f : Fault} {u t : State} {M : Prospect} {le : u.remaining ≤ r.remaining}
      (leaves : Leaves s L t M) (stopped : Stopped t M f u) :
      Follows s L Q ⟨.error f, u, le⟩

/-- Started in `r`, the production reads the words of `L` from `s` on, and if it succeeds then
`Q` holds of the result, the state it ends in, the state before the next word, and the prospect
there. -/
def Course (p : Production α) (r s : State) (L : Prospect)
    (Q : α → State → State → Prospect → Prop) : Prop := Follows s L Q (p r)

/-- The production ends before the next word, and `K` is what may come. -/
def EndsAt (K : Prospect) : α → State → State → Prospect → Prop := fun _ u t M => u = t ∧ M = K

section Laws

variable {p : Production α} {f : α → Production β} {Q : α → State → State → Prospect → Prop}
  {Q' : β → State → State → Prospect → Prop}

theorem Course.imp {Q' : α → State → State → Prospect → Prop} (h : Course p r s L Q)
    (hQ : ∀ a u t M, Leaves s L t M → Q a u t M → Q' a u t M) : Course p r s L Q' := by
  unfold Course at h ⊢
  generalize p r = o at h
  cases h with
  | ok leaves holds => exact .ok leaves (hQ _ _ _ _ leaves holds)
  | error leaves stopped => exact .error leaves stopped

/-- Words that were passed before, or a look at the word ahead. -/
theorem Course.since (hs : Leaves s L t M) (h : Course p r t M Q) : Course p r s L Q := by
  unfold Course at h ⊢
  generalize p r = o at h
  cases h with
  | ok leaves holds => exact .ok (hs.trans leaves) holds
  | error leaves stopped => exact .error (hs.trans leaves) stopped

theorem course_pure {a : α} (h : Q a r s L) : Course (pure a) r s L Q := .ok (.refl s L) h

theorem course_bind (hp : Course p r s L Q)
    (hf : ∀ a u t M, Leaves s L t M → Q a u t M → Course (f a) u t M Q') :
    Course (p >>= f) r s L Q' := by
  unfold Course at hp ⊢
  change Follows s L Q' (Production.bind p f r)
  unfold Production.bind
  generalize p r = o at hp
  cases hp with
  | @ok a u t M le leaves holds =>
    have hnext := (hf a u t M leaves holds).since leaves
    unfold Course at hnext
    dsimp only
    generalize f a u = o at hnext
    cases hnext with
    | ok leaves holds => exact .ok leaves holds
    | error leaves stopped => exact .error leaves stopped
  | error leaves stopped => exact .error leaves stopped

theorem Follows.since {o : Outcome t α} (h : Follows s L Q o) (le : t.remaining ≤ r.remaining) :
    Follows s L Q (o.since le) := by
  cases h with
  | ok leaves holds => exact .ok leaves holds
  | error leaves stopped => exact .error leaves stopped

/-! What follows a production that reads at most one word goes on in a known state. -/

theorem course_current_bind {f : Token → Production β} (h : Course (f r.current) r s L Q') :
    Course (current >>= f) r s L Q' := Follows.since h (Nat.le_refl _)

theorem course_ahead_bind {f : Token → Production β} (h : Course (f r.ahead) r s L Q') :
    Course (ahead >>= f) r s L Q' := Follows.since h (Nat.le_refl _)

theorem course_aheadIs_bind {f : Bool → Production β}
    (h : Course (f (r.ahead.kind == k)) r s L Q') : Course (aheadIs k >>= f) r s L Q' :=
  Follows.since h (Nat.le_refl _)

theorem course_ifAhead {p q : Production β} (hp : r.ahead.kind = k → Course p r s L Q')
    (hq : r.ahead.kind ≠ k → Course q r s L Q') :
    Course (do if ← aheadIs k then p else q) r s L Q' := by
  refine course_aheadIs_bind ?_
  by_cases h : r.ahead.kind = k
  · simpa [h] using hp h
  · simpa [h] using hq h

theorem course_advance_bind {f : Unit → Production β} (h : Course (f ()) r.advance s L Q') :
    Course (advance >>= f) r s L Q' := Follows.since h r.remaining_advance_le

theorem course_fail {e : Fault} (hr : r = s ∨ r = s.advance)
    (hblame : e.cause.category = .structural →
      e.span = s.ahead.span ∧ ∀ ws, ¬ L.allows (s.ahead.word :: ws)) :
    Course (fail e) r s L Q := by
  refine .error (.refl s L) ⟨?_, hblame⟩
  rcases hr with rfl | rfl
  · exact .inl rfl
  · exact .inr rfl

/-- A word of a kind is read, or else the word that is there instead is to blame. -/
theorem course_expect_bind_of {f : Unit → Production β}
    (hne : s.ahead.kind ≠ k → ∀ ws, ¬ L.allows (s.ahead.word :: ws))
    (h : s.ahead.kind = k → Course (f ()) s.advance s L Q') : Course (expect k >>= f) s s L Q' := by
  by_cases hahead : s.ahead.kind = k
  · have heq : (expect k >>= f) s = (advance >>= f) s := by
      change Production.bind (expect k) f s = Production.bind advance f s
      rw [Production.bind, expect, if_pos hahead]
      rfl
    unfold Course
    rw [heq]
    exact course_advance_bind (h hahead)
  · refine course_bind (Q := fun _ _ _ _ => False) ?_ fun _ _ _ _ _ h => h.elim
    unfold Course
    rw [expect, if_neg hahead]
    exact course_fail (.inl rfl) fun _ => ⟨rfl, hne hahead⟩

theorem course_expect_bind {f : Unit → Production β} (hk : k ≠ .endOfText)
    (h : s.ahead.kind = k → Course (f ()) s.advance s.advance K Q') :
    Course (expect k >>= f) s s (word k K) Q' :=
  course_expect_bind_of (fun hne _ hws => hne hws.1) fun hahead =>
    (h hahead).since (leaves_word hahead hk)

theorem course_expectName_bind {f : String → Production β}
    (h : Course (f s.advance.current.literal) s.advance s.advance K Q') :
    Course (expectName >>= f) s s (word .ident K) Q' := by
  refine course_bind (Q := fun a u t M => a = s.advance.current.literal ∧ u = s.advance ∧ t = u ∧
    M = K) ?_ ?_
  · exact course_expect_bind (by simp) fun _ =>
      course_current_bind (course_pure ⟨rfl, rfl, rfl, rfl⟩)
  · rintro a u t M - ⟨rfl, rfl, rfl, rfl⟩
    exact h

/-- What is nested is read one level down; a construct that would be nested too deep is refused at
its first word. -/
theorem course_nested (hr : r = s ∨ r = s.advance) (h : r.depth < nestingLimit →
      Course p r.deeper s.deeper L fun a u t M => Q a u.shallower t.shallower M) :
    Course (nested p) r s L Q := by
  unfold Course nested
  split
  · rename_i hdepth
    have hin := h hdepth
    unfold Course at hin
    generalize p r.deeper = o at hin
    cases hin with
    | ok leaves holds =>
      obtain ⟨t, rfl, hleaves⟩ := exists_of_leaves_deeper leaves
      exact .ok hleaves holds
    | @error f u _ M le leaves stopped =>
      obtain ⟨t, rfl, hleaves⟩ := exists_of_leaves_deeper leaves
      refine .error hleaves ⟨?_, stopped.blame⟩
      change u.shallower = t.note f ∨ u.shallower = t.advance.note f
      rcases stopped.place with h | h
      · exact .inl (h ▸ rfl)
      · rw [h, advance_deeper]
        exact .inr rfl
  · exact course_fail hr (by simp [Cause.category])

section Repetition

variable {wanted : Kind → Bool} {stops : wanted .endOfText = false}

/-- A loop keeps its course if its body keeps an invariant of the prospect. -/
theorem course_whileAhead {n : Nat} {I : State → Prospect → Prop}
    (hbody : ∀ t M, t.levels = n → I t M → wanted t.ahead.kind = true →
      Course p t.advance t M fun _ u t' M' => u = t' ∧ I t' M')
    (hs : s.levels = n) (hI : I s L) :
    Course (whileAhead wanted stops p) s s L fun _ u t M =>
      u = t ∧ I t M ∧ wanted t.ahead.kind = false := by
  induction hrem : s.remaining using Nat.strongRecOn generalizing s L with
  | ind m ih =>
    unfold Course
    rw [whileAhead]
    by_cases hw : wanted s.ahead.kind = true
    · rw [dif_pos hw]
      have hlt : s.advance.remaining < s.remaining :=
        s.remaining_advance_lt fun hend => by simp [hend, stops] at hw
      have hin := hbody s L hs hI hw
      unfold Course at hin
      generalize p s.advance = o at hin
      cases hin with
      | @ok a u t M le leaves holds =>
        obtain ⟨rfl, hI⟩ := holds
        have hrest := (ih u.remaining (by omega) (leaves.levels.trans hs) hI rfl).since leaves
        unfold Course at hrest
        dsimp only
        generalize whileAhead wanted stops p u = o at hrest
        cases hrest with
        | ok leaves holds => exact .ok leaves holds
        | error leaves stopped => exact .error leaves stopped
      | error leaves stopped => exact .error leaves stopped
    · rw [dif_neg hw]
      exact .ok (.refl s L) ⟨rfl, hI, by simpa using hw⟩

/-- A loop over no rounds. -/
theorem course_whileAhead_nil {Q : List α → State → State → Prospect → Prop}
    (hw : wanted s.ahead.kind = false) (h : Q [] s s L) :
    Course (whileAhead wanted stops p) s s L Q := by
  unfold Course
  rw [whileAhead, dif_neg (by simp [hw])]
  exact .ok (.refl s L) h

end Repetition

/-- Constructs up to the end of the text, each of which is left with the word behind it taken. -/
theorem course_untilEnd {n : Nat} (takes : Consumes p)
    (hbody : ∀ t, t.levels = n → t.ahead.kind ≠ .endOfText →
      Course p t.advance t L fun _ u t' M => u = t'.advance ∧ M = L) (hs : s.levels = n) :
    Course (untilEnd p takes) s.advance s L fun _ _ _ _ => True := by
  induction hrem : s.advance.remaining using Nat.strongRecOn generalizing s with
  | ind m ih =>
    unfold Course
    by_cases hend : s.ahead.kind = .endOfText
    · rw [untilEnd_of_end (by rwa [current_advance])]
      exact .ok (.refl s L) trivial
    · have hcurrent : s.advance.current.kind ≠ .endOfText := by rwa [current_advance]
      have hin := hbody s hs hend
      have hlt := takes s.advance
      unfold Course at hin
      generalize heq : p s.advance = o at hin hlt
      cases hin with
      | @ok a u t M le leaves holds =>
        obtain ⟨rfl, rfl⟩ := holds
        rw [untilEnd_of_ok hcurrent heq]
        have hrest := (ih t.advance.remaining (hrem ▸ hlt a rfl) (leaves.levels.trans hs)
          rfl).since leaves
        unfold Course at hrest
        generalize untilEnd p takes t.advance = o at hrest
        cases hrest with
        | ok leaves holds => exact .ok leaves holds
        | error leaves stopped => exact .error leaves stopped
      | error leaves stopped =>
        rw [untilEnd_of_error hcurrent heq]
        exact .error leaves stopped

end Laws

end Grammar
end CircuitText
