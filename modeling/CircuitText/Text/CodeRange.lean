/-!
# Classes of characters given by ranges of code points

A character class such as "letter" is written down as the ascending list of the closed intervals of
code points that make it up.  Looking a character up walks the list and stops at the first interval
that does not lie wholly below it, so the small code points that make up most texts are decided
after one or two comparisons.

* `inRanges` --- membership in such a list;
* `Ascending` --- the intervals are proper and each lies above the one before it;
* `inRanges_iff` --- for an ascending list, membership is membership in one of the intervals.
-/

namespace CircuitText
namespace Text

/-- The intervals are proper, lie at or above `low`, and each one lies wholly above the one before
it. -/
def Ascending : Nat → List (Nat × Nat) → Bool
  | _, [] => true
  | low, (first, last) :: more =>
    decide (low ≤ first) && decide (first ≤ last) && Ascending (last + 1) more

/-- Whether `n` lies in one of the intervals of an ascending list. -/
def inRanges (n : Nat) : List (Nat × Nat) → Bool
  | [] => false
  | (first, last) :: more => if last < n then inRanges n more else decide (first ≤ n)

/-- Every interval of an ascending list starts at or above its bound. -/
theorem le_of_mem_ascending {low : Nat} {ranges : List (Nat × Nat)}
    (h : Ascending low ranges = true) {r : Nat × Nat} (hr : r ∈ ranges) : low ≤ r.1 := by
  induction ranges generalizing low with
  | nil => simp at hr
  | cons a more ih =>
    obtain ⟨first, last⟩ := a
    simp only [Ascending, Bool.and_eq_true, decide_eq_true_eq] at h
    rcases List.mem_cons.mp hr with rfl | hr
    · exact h.1.1
    · exact Nat.le_trans (Nat.le_succ_of_le (Nat.le_trans h.1.1 h.1.2)) (ih h.2 hr)

/-- Stopping early loses nothing: in an ascending list the look-up finds exactly the members. -/
theorem inRanges_iff {low : Nat} {ranges : List (Nat × Nat)} (h : Ascending low ranges = true)
    (n : Nat) : inRanges n ranges = true ↔ ∃ r ∈ ranges, r.1 ≤ n ∧ n ≤ r.2 := by
  induction ranges generalizing low with
  | nil => simp [inRanges]
  | cons a more ih =>
    obtain ⟨first, last⟩ := a
    simp only [Ascending, Bool.and_eq_true, decide_eq_true_eq] at h
    simp only [inRanges, List.mem_cons, exists_eq_or_imp]
    split
    · rename_i hlt
      rw [ih h.2]
      constructor
      · exact Or.inr
      · rintro (hn | hn)
        · omega
        · exact hn
    · rename_i hle
      rw [decide_eq_true_eq]
      constructor
      · exact fun hf => Or.inl ⟨hf, Nat.le_of_not_lt hle⟩
      · rintro (hn | ⟨r, hr, hn⟩)
        · exact hn.1
        · have := le_of_mem_ascending h.2 hr
          omega

end Text
end CircuitText
