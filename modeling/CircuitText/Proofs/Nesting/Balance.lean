import CircuitText.Proofs.Faults.Discipline
import CircuitText.Proofs.Parsing.Visiting

/-!
# The depth on the way

Wherever a production has been, however deep it has gone and whether it gave up there or not, it
ends at the depth that it began with.  In between it is never less deep than that, so that no level
is closed that it has not opened, and never deeper than the limit allows.  A text that is read is
begun at depth zero, and so each time that reading is asked for it begins and ends there, also
behind a fault that was found many levels down.

* `Visits.depth` --- levels that are opened are closed again;
* `Step.depth_le`, `Visits.depth_within` --- the limit is kept to on the way;
* `Construct` --- the productions that read a construct of the language;
* `depth_of_construct` --- their depth, at the end and on the way.
-/

namespace CircuitText
namespace Grammar

variable {α : Type} {p : Production α} {s t : State} {path : List State}

/-- Levels that are opened are closed again, and no others. -/
theorem Visits.depth (h : Visits p s path) :
    (p s).after.depth = s.depth ∧ ∀ t ∈ path, s.depth ≤ t.depth := by
  induction h with
  | pure | current | ahead | aheadIs => exact ⟨rfl, by simp⟩
  | advance s => exact ⟨depth_advance s, by simp [depth_advance]⟩
  | fail | tooDeep => exact ⟨rfl, by simp [depth_note]⟩
  | expect k s =>
    rw [after_expect]
    split <;> simp [depth_advance, depth_note]
  | bind_reads _ reads _ ih ih' =>
    rw [reads.2] at ih
    rw [after_bind_of_reads reads, ih'.1, ih.1]
    exact ⟨rfl, List.forall_mem_append.mpr ⟨ih.2, fun u hu => ih.1 ▸ ih'.2 u hu⟩⟩
  | bind_fails _ fails ih =>
    rw [after_bind_of_fails fails]
    exact ih
  | @nested _ p s path within _ ih =>
    -- the level is closed in the last state of the way, whether or not something was read there
    have hclosed : (p s.deeper).after.shallower.depth = s.depth := congrArg (· - 1) ih.1
    rw [after_nested within]
    refine ⟨hclosed, List.forall_mem_cons.mpr ⟨Nat.le_succ _, List.forall_mem_append.mpr
      ⟨fun t ht => Nat.le_of_succ_le (ih.2 t ht), by simp [hclosed]⟩⟩⟩
  | nested_tooDeep beyond =>
    rw [after_nested_of_not beyond]
    exact ⟨rfl, by simp [depth_note]⟩
  | while_stop stop =>
    rw [whileAhead_of_ne _ stop]
    exact ⟨rfl, by simp⟩
  | while_fails goes _ fails ih =>
    rw [depth_advance] at ih
    rw [after_whileAhead_of_fails goes fails]
    exact ⟨ih.1, List.forall_mem_cons.mpr ⟨Nat.le_of_eq (depth_advance _).symm, ih.2⟩⟩
  | while_reads goes _ reads _ ih ih' =>
    rw [depth_advance, reads.2] at ih
    rw [after_whileAhead_of_reads goes reads, ih'.1, ih.1]
    exact ⟨rfl, List.forall_mem_cons.mpr ⟨Nat.le_of_eq (depth_advance _).symm,
      List.forall_mem_append.mpr ⟨ih.2, fun u hu => ih.1 ▸ ih'.2 u hu⟩⟩⟩
  | until_end stop =>
    rw [untilEnd_of_end stop]
    exact ⟨rfl, by simp⟩
  | until_fails goes _ fails ih =>
    rw [after_untilEnd_of_fails goes fails]
    exact ih
  | until_reads goes _ reads _ ih ih' =>
    rw [reads.2] at ih
    rw [after_untilEnd_of_reads goes reads, ih'.1, ih.1]
    exact ⟨rfl, List.forall_mem_append.mpr ⟨ih.2, fun u hu => ih.1 ▸ ih'.2 u hu⟩⟩
  | levels _ ih => exact ih

/-- A level is opened only within the limit. -/
theorem Step.depth_le (h : Step s t) (hs : s.depth ≤ nestingLimit) : t.depth ≤ nestingLimit := by
  cases h with
  | advance => rwa [depth_advance]
  | note => exact hs
  | deeper within => exact within
  | shallower => exact Nat.le_trans (Nat.sub_le ..) hs

/-- A production that may go deeper keeps between where it began and the limit. -/
theorem Visits.depth_within (h : Visits p s path) (hs : s.depth ≤ nestingLimit) :
    ∀ t ∈ path, s.depth ≤ t.depth ∧ t.depth ≤ nestingLimit := fun t ht =>
  ⟨h.depth.2 t ht, h.of_step (fun _ _ => Step.depth_le) hs t ht⟩

/-! ## Constructs -/

/-- The productions that read a construct of the language, by itself, in a list or one level
deeper. -/
inductive Construct : {α : Type} → Production α → Prop
  | program : Construct program
  | inclusion : Construct inclusion
  | circuit : Construct circuit
  | block : Construct block
  | statement : Construct (statementOver block)
  | groupOrPipe : Construct groupOrPipe
  | clock : Construct (clockOver block)
  | delay : Construct delay
  | call : Construct call
  | pipeFromBracket : Construct pipeFromBracket
  | pipeFrom (inputs : List Expression) : Construct (pipeFrom inputs)
  | expression : Construct expression
  | operand : Construct (operandOver expression)
  | tail (left : Expression) : Construct (expressionTail left)
  | registerName : Construct registerName
  | parameter : Construct parameter
  | listed {α : Type} {item : Production α} (h : Construct item) : Construct (listWithComma item)
  | nested {α : Type} {inner : Production α} (h : Construct inner) : Construct (nested inner)

theorem Construct.built (h : Construct p) : Built p := by
  induction h with
  | program => exact built_program
  | inclusion => exact built_inclusion
  | circuit => exact built_circuit
  | block => exact built_block
  | statement => exact built_statementOver built_block
  | groupOrPipe => exact built_groupOrPipe
  | clock => exact built_clockOver built_block
  | delay => exact built_delay
  | call => exact built_call
  | pipeFromBracket => exact built_pipeFromBracket
  | pipeFrom inputs => exact built_pipeFrom inputs
  | expression => exact built_expression
  | operand => exact built_operandOver built_expression
  | tail left => exact built_expressionTail left
  | registerName => exact built_registerName
  | parameter => exact built_parameter
  | listed _ ih => exact built_listWithComma ih
  | nested _ ih => exact .nested ih

theorem depth_start (supply : Supply) : (State.start supply).depth = 0 := by
  rw [State.start, depth_advance, State.noteIllegal]
  split <;> rfl

theorem depth_afterParses (s : State) (n : Nat) : (s.afterParses n).depth = s.depth := by
  induction n with
  | zero => rfl
  | succ n ih => rw [State.afterParses_succ, parse_snd, built_program.balanced, ih]

/-- Whatever construct is read and in whatever state, and whether that succeeds or not, it ends at
the depth at which it began.  On the way it is never less deep and never beyond the limit.  So each
reading of a text begins and ends at depth zero, also one that goes on behind a fault. -/
theorem depth_of_construct :
    (∀ (α : Type) (p : Production α), Construct p → ∀ s : State, s.depth ≤ 128 →
      (p s).after.depth = s.depth ∧ (∃ path, Visits p s path) ∧
        ∀ path, Visits p s path →
          path.getLast?.getD s = (p s).after ∧ ∀ t ∈ path, s.depth ≤ t.depth ∧ t.depth ≤ 128) ∧
      ∀ supply n, ((State.start supply).afterParses n).depth = 0 := by
  refine ⟨fun α p hp s hs => ⟨hp.built.balanced s, hp.built.exists_visits s, fun path hpath =>
    ⟨hpath.after_eq.symm, hpath.depth_within hs⟩⟩, fun supply n => ?_⟩
  rw [depth_afterParses, depth_start]

/-- One level is left for two prefixes: reading stops one level down, and ends where it began. -/
theorem depth_of_construct_too_deep :
    let s : State := { State.start (.ofLexer (.ofText "! ! a".toList "here")) with depth := 127 }
    (expression s).after.faults.map (·.cause) = [.nestedTooDeep] ∧
      (expression s).after.depth = 127 ∧
      ∃ path, Visits expression s path ∧ ∀ t ∈ path, 127 ≤ t.depth ∧ t.depth ≤ 128 := by
  intro s
  obtain ⟨hdepth, ⟨path, hpath⟩, hway⟩ :=
    depth_of_construct.1 Expression expression .expression s (by decide +kernel)
  exact ⟨by decide +kernel, hdepth, path, hpath, (hway path hpath).2⟩

end Grammar
end CircuitText
