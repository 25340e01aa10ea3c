/-!
# Paths

A path is a text that names a file by steps separated by slashes.  A step that is empty or a single
dot stays where it is, and a step of two dots goes back.

* `steps` --- the steps of a path;
* `pathLabel` --- the name that stands for a file in messages.
-/

namespace CircuitText

/-- The steps of a path, as they are written between its slashes. -/
def steps : List Char → List (List Char)
  | [] => [[]]
  | c :: path =>
    if c = '/' then [] :: steps path
    else
      match steps path with
      | [] => [[c]]
      | step :: more => (c :: step) :: more

/-- Whether a step stays where it is. -/
def staysPut (step : List Char) : Bool := step = [] || step = ['.']

/-- Whether a step goes back. -/
def goesBack (step : List Char) : Bool := step = ['.', '.']

/-- The name of the file that a path leads to: its last step that does not stay put.  A path that
ends by going back, or has no such step, is taken as a whole. -/
def pathLabel (path : String) : String :=
  match ((steps path.toList).filter fun step => !staysPut step).getLast? with
  | none => path
  | some step => if goesBack step then path else String.ofList step

/-- Putting the slashes back gives the path. -/
theorem intercalate_steps (path : List Char) : ['/'].intercalate (steps path) = path := by
  have hne : ∀ path : List Char, steps path ≠ [] := by
    intro path
    cases path with
    | nil => simp [steps]
    | cons c path =>
      unfold steps
      split
      · simp
      · split <;> simp
  induction path with
  | nil => rfl
  | cons c path ih =>
    unfold steps
    obtain ⟨step, more, h⟩ := List.exists_cons_of_ne_nil (hne path)
    rw [h] at ih ⊢
    split
    · rename_i hc
      rw [hc, ← ih]
      rfl
    · rw [← ih]
      cases more <;> rfl

end CircuitText
