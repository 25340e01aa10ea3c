import CircuitText.Token.Lexeme

/-!
# Runs of characters

A run is a longest part at the front of a list whose members all have a property.  `takeWhile` and
`dropWhile` split a list into its run and the rest; conversely a list that is put together from
members with the property and a rest that does not begin with one is split there.
-/

namespace CircuitText
namespace Text

variable {α : Type} {p : α → Bool} {run rest : List α}

/-- The rest does not go on with the run. -/
def Stops (p : α → Bool) (rest : List α) : Prop := ∀ x ∈ rest.head?, p x = false

@[simp] theorem stops_nil : Stops p ([] : List α) := by simp [Stops]

@[simp] theorem stops_cons {x : α} : Stops p (x :: rest) ↔ p x = false := by simp [Stops]

theorem takeWhile_run (hrun : ∀ x ∈ run, p x = true) (hrest : Stops p rest) :
    (run ++ rest).takeWhile p = run := by
  rw [List.takeWhile_append_of_pos hrun]
  cases rest with
  | nil => simp
  | cons x rest => simp [stops_cons.mp hrest]

theorem dropWhile_run (hrun : ∀ x ∈ run, p x = true) (hrest : Stops p rest) :
    (run ++ rest).dropWhile p = rest := by
  have h := List.takeWhile_append_dropWhile (p := p) (l := run ++ rest)
  rw [takeWhile_run hrun hrest] at h
  exact List.append_cancel_left h

theorem stops_dropWhile (l : List α) : Stops p (l.dropWhile p) := by
  have h := List.head?_dropWhile_not p l
  intro x hx
  rw [Option.mem_def] at hx
  rwa [hx] at h

theorem of_mem_takeWhile {l : List α} {x : α} (hx : x ∈ l.takeWhile p) : p x = true :=
  List.all_eq_true.mp List.all_takeWhile x hx

/-- What follows a list makes no difference to the run at its front if the list has a member that
stops the run. -/
theorem run_append {l : List α} {x : α} (hx : x ∈ l) (hstop : p x = false) (more : List α) :
    (l ++ more).takeWhile p = l.takeWhile p ∧ (l ++ more).dropWhile p = l.dropWhile p ++ more ∧
      x ∈ l.dropWhile p := by
  induction l with
  | nil => simp at hx
  | cons y l ih =>
    by_cases hy : p y = true
    · have hne : x ≠ y := by
        rintro rfl
        simp [hstop] at hy
      simpa [hy] using ih (List.mem_of_ne_of_mem hne hx)
    · simp [hy, List.mem_cons.mp hx]

/-- A list is split in one way only into a run and what stops it. -/
theorem append_inj_of_stops {run' rest' : List α} (h : run ++ rest = run' ++ rest')
    (hrun : ∀ x ∈ run, p x = true) (hrun' : ∀ x ∈ run', p x = true) (hrest : Stops p rest)
    (hrest' : Stops p rest') : run = run' ∧ rest = rest' := by
  have htake := congrArg (List.takeWhile p) h
  rw [takeWhile_run hrun hrest, takeWhile_run hrun' hrest'] at htake
  subst htake
  exact ⟨rfl, List.append_cancel_left h⟩

/-- What a list ends with, its tail ends with, unless it is the first member. -/
theorem getLast?_of_cons {x y : α} {l : List α} (h : (x :: l).getLast? = some y) (hne : x ≠ y) :
    l.getLast? = some y := by
  cases l with
  | nil => exact absurd (by simpa using h) hne
  | cons z l => rwa [List.getLast?_cons_cons] at h

/-! ## Numbers in decimal

A number is written as a run of digits. -/

theorem isDigit_of_mem_repr {n : Nat} {c : Char} (hc : c ∈ n.repr.toList) : c.isDigit = true := by
  rw [Nat.toList_repr] at hc
  exact Nat.isDigit_of_mem_toDigits (by decide) (by decide) hc

theorem repr_ne_nil (n : Nat) : n.repr.toList ≠ [] := by
  rw [Nat.toList_repr]
  exact Nat.toDigits_ne_nil

theorem ofDigitChars_repr (n : Nat) : Nat.ofDigitChars 10 n.repr.toList 0 = n := by
  rw [Nat.toList_repr, Nat.ofDigitChars_ten_toDigits]

theorem repr_inj {m n : Nat} (h : m.repr.toList = n.repr.toList) : m = n := by
  rw [← ofDigitChars_repr m, h, ofDigitChars_repr]

end Text
end CircuitText
