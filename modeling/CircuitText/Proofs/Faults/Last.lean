import CircuitText.Proofs.Faults.Discipline
import CircuitText.Proofs.Parsing.Failing

/-!
# The fault noted last

The first reading of a text notes illegal characters as they come in sight, and if it fails then the
fault that ended it is noted after all of them.  So the last fault of the list tells how the reading
ended, and without illegal characters it is the only one.

* `getLast?_parse_eq_some_iff` --- the last fault is the one that ended the reading;
* `parse_eq_error_of_fails` --- it is the answer if nothing is illegal.
-/

namespace CircuitText
namespace Grammar

variable {supply : Supply} {f : Fault}

/-- The first reading notes the illegal tokens that it takes, and then the fault that ended it. -/
theorem faults_parse_of_fails (hfails : Fails program (State.start supply) f) :
    ∃ n, (State.start supply).parse.2.faults = illegalFaults (supply.upcoming.take n) ++ [f] ∧
      f.cause.category ≠ .lexical := by
  obtain ⟨nothing, rfl, hnone, m, hsupply, hfaults⟩ := adds_start supply
  rcases adds_program (State.start nothing.supply) with
    ⟨⟨p, hp⟩, -⟩ | ⟨g, hg, hcategory, n, -, hadded⟩
  · rw [Fails, hp] at hfails
    cases hfails
  · rw [Fails, hg, Except.error.injEq] at hfails
    subst hfails
    refine ⟨m + n, ?_, hcategory⟩
    rw [parse_snd, hadded, hfaults, hnone, hsupply]
    simp [Supply.past, List.take_add, illegalFaults_append]

/-- The fault that ended the first reading is the one that was noted last. -/
theorem getLast?_parse_eq_some_iff (hcategory : f.cause.category ≠ .lexical) :
    (State.start supply).parse.2.faults.getLast? = some f ↔
      Fails program (State.start supply) f := by
  constructor
  · intro hlast
    obtain ⟨nothing, rfl, hnone, m, hsupply, hfaults⟩ := adds_start supply
    rcases adds_program (State.start nothing.supply) with ⟨-, n, -, hadded⟩ | ⟨g, hg, -⟩
    · -- A reading that succeeds has noted illegal characters only.
      rw [parse_snd, hadded, hfaults, hnone] at hlast
      simp only [List.nil_append, List.append_nil, ← illegalFaults_append] at hlast
      exact absurd (category_of_mem_illegalFaults (List.mem_of_getLast? hlast)) hcategory
    · obtain ⟨n, hparse, -⟩ := faults_parse_of_fails hg
      rw [hparse, List.getLast?_concat, Option.some.injEq] at hlast
      exact hlast ▸ hg
  · intro hfails
    obtain ⟨n, hparse, -⟩ := faults_parse_of_fails hfails
    rw [hparse, List.getLast?_concat]

/-- Where nothing is illegal, the fault that ended the first reading is the answer. -/
theorem parse_eq_error_of_fails (hlegal : ∀ k ∈ supply.upcoming, k.kind ≠ .illegal)
    (hfails : Fails program (State.start supply) f) :
    (State.start supply).parse.1 = .error f := by
  obtain ⟨n, hparse, -⟩ := faults_parse_of_fails hfails
  have hnone : illegalFaults (supply.upcoming.take n) = [] := by
    rw [illegalFaults, List.map_eq_nil_iff, List.filter_eq_nil_iff]
    intro k hk
    simpa using hlegal k (List.mem_of_mem_take hk)
  refine parse_of_head? ?_
  rw [hparse, hnone]
  rfl

end Grammar
end CircuitText
