import CircuitText.Proofs.Faults.Comparison
import CircuitText.Proofs.Parsing.Failing
import CircuitText.Proofs.Parsing.Recursion
import Mathlib.Data.List.Chain

/-!
# The states on the way

An outcome tells where a production ends, but not where it has been.  `Visits p s path` says that
`p`, started in `s`, goes through the states of `path`, one after the other: it enters one whenever
it moves on, notes a fault, opens a level or closes one.  There is one rule for each way in which
productions are built, and which of them applies depends on what the parts read or where they fail.

The last state on the way is the one in which the production ends.  From each state to the next is a
single step, so what every step keeps holds everywhere on the way.

Every production has a way to its end, whatever it is started in.

* `Visits` --- the states that a production goes through;
* `Visits.after_eq` --- the way leads to the end;
* `Step`, `Visits.isChain` --- the way goes step by step;
* `Visits.of_step` --- what holds on the way;
* `Built.exists_visits` --- there is always a way.
-/

namespace CircuitText
namespace Grammar

/-- Started in `s`, the production goes through these states, one after the other. -/
inductive Visits : {α : Type} → Production α → State → List State → Prop
  | pure {α : Type} (a : α) (s : State) : Visits (pure a) s []
  | current (s : State) : Visits current s []
  | ahead (s : State) : Visits ahead s []
  | aheadIs (k : Kind) (s : State) : Visits (aheadIs k) s []
  | advance (s : State) : Visits advance s [s.advance]
  | fail {α : Type} (f : Fault) (s : State) : Visits (fail f : Production α) s [s.note f]
  | tooDeep {α : Type} (s : State) :
      Visits (tooDeep : Production α) s [s.note ⟨.nestedTooDeep, s.current.span⟩]
  | expect (k : Kind) (s : State) : Visits (expect k) s
      [if s.ahead.kind = k then s.advance else s.note (.expected k s.ahead)]
  | bind_reads {α β : Type} {p : Production α} {f : α → Production β} {a : α} {s t : State}
      {path more : List State} (first : Visits p s path) (reads : Reads p s a t)
      (second : Visits (f a) t more) : Visits (p >>= f) s (path ++ more)
  | bind_fails {α β : Type} {p : Production α} {f : α → Production β} {e : Fault} {s : State}
      {path : List State} (first : Visits p s path) (fails : Fails p s e) : Visits (p >>= f) s path
  | nested {α : Type} {p : Production α} {s : State} {path : List State}
      (within : s.depth < nestingLimit) (inner : Visits p s.deeper path) :
      Visits (nested p) s (s.deeper :: (path ++ [(p s.deeper).after.shallower]))
  | nested_tooDeep {α : Type} {p : Production α} {s : State} (beyond : ¬ s.depth < nestingLimit) :
      Visits (nested p) s [s.note ⟨.nestedTooDeep, s.current.span⟩]
  | while_stop {α : Type} {wanted : Kind → Bool} {stops : wanted .endOfText = false}
      {p : Production α} {s : State} (stop : wanted s.ahead.kind = false) :
      Visits (whileAhead wanted stops p) s []
  | while_fails {α : Type} {wanted : Kind → Bool} {stops : wanted .endOfText = false}
      {p : Production α} {e : Fault} {s : State} {path : List State}
      (goes : wanted s.ahead.kind = true) (round : Visits p s.advance path)
      (fails : Fails p s.advance e) : Visits (whileAhead wanted stops p) s (s.advance :: path)
  | while_reads {α : Type} {wanted : Kind → Bool} {stops : wanted .endOfText = false}
      {p : Production α} {a : α} {s t : State} {path more : List State}
      (goes : wanted s.ahead.kind = true) (round : Visits p s.advance path)
      (reads : Reads p s.advance a t) (rounds : Visits (whileAhead wanted stops p) t more) :
      Visits (whileAhead wanted stops p) s (s.advance :: (path ++ more))
  | until_end {α : Type} {p : Production α} {takes : Consumes p} {s : State}
      (stop : s.current.kind = .endOfText) : Visits (untilEnd p takes) s []
  | until_fails {α : Type} {p : Production α} {takes : Consumes p} {e : Fault} {s : State}
      {path : List State} (goes : s.current.kind ≠ .endOfText) (round : Visits p s path)
      (fails : Fails p s e) : Visits (untilEnd p takes) s path
  | until_reads {α : Type} {p : Production α} {takes : Consumes p} {a : α} {s t : State}
      {path more : List State} (goes : s.current.kind ≠ .endOfText) (round : Visits p s path)
      (reads : Reads p s a t) (rounds : Visits (untilEnd p takes) t more) :
      Visits (untilEnd p takes) s (path ++ more)
  /-- With as many levels as the state has left. -/
  | levels {α : Type} {p : Nat → Production α} {s : State} {path : List State}
      (inner : Visits (p s.levels) s path) : Visits (fun s => p s.levels s) s path

variable {α β : Type} {p : Production α} {a : α} {e : Fault} {s t : State} {path : List State}

/-! ## Where productions end -/

section Ends

variable {f : α → Production β} {wanted : Kind → Bool} {stops : wanted .endOfText = false}
  {takes : Consumes p}

theorem exists_eq_of_fails (h : Fails p s e) : ∃ le, p s = ⟨.error e, (p s).after, le⟩ :=
  exists_eq_error h rfl

theorem after_bind_of_reads (h : Reads p s a t) : ((p >>= f) s).after = (f a t).after := by
  obtain ⟨le, hp⟩ := eq_ok_of_reads h
  rw [bind_of_ok hp]
  rfl

theorem after_bind_of_fails (h : Fails p s e) : ((p >>= f) s).after = (p s).after := by
  obtain ⟨le, hp⟩ := exists_eq_of_fails h
  rw [bind_of_error hp]

theorem after_nested (h : s.depth < nestingLimit) :
    (nested p s).after = (p s.deeper).after.shallower := by
  rw [nested, if_pos h]
  rfl

theorem after_nested_of_not (h : ¬ s.depth < nestingLimit) :
    (nested p s).after = s.note ⟨.nestedTooDeep, s.current.span⟩ := by
  rw [nested, if_neg h]
  rfl

theorem after_expect (k : Kind) (s : State) : (expect k s).after =
    if s.ahead.kind = k then s.advance else s.note (.expected k s.ahead) := by
  rw [expect]
  split <;> rfl

theorem after_whileAhead_of_fails (hwanted : wanted s.ahead.kind = true)
    (h : Fails p s.advance e) : (whileAhead wanted stops p s).after = (p s.advance).after := by
  obtain ⟨le, hp⟩ := exists_eq_of_fails h
  rw [whileAhead_of_error stops hwanted hp]

theorem after_whileAhead_of_reads (hwanted : wanted s.ahead.kind = true)
    (h : Reads p s.advance a t) :
    (whileAhead wanted stops p s).after = (whileAhead wanted stops p t).after := by
  obtain ⟨le, hp⟩ := eq_ok_of_reads h
  exact (whileAhead_of_ok stops hwanted hp).2

theorem after_untilEnd_of_fails (hend : s.current.kind ≠ .endOfText) (h : Fails p s e) :
    (untilEnd p takes s).after = (p s).after := by
  obtain ⟨le, hp⟩ := exists_eq_of_fails h
  rw [untilEnd_of_error hend hp]

theorem after_untilEnd_of_reads (hend : s.current.kind ≠ .endOfText) (h : Reads p s a t) :
    (untilEnd p takes s).after = (untilEnd p takes t).after := by
  obtain ⟨le, hp⟩ := eq_ok_of_reads h
  rw [untilEnd_of_ok hend hp]
  split
  · rename_i hrest
    rw [hrest]
  · rename_i hrest
    rw [hrest]

end Ends

namespace Visits

/-- The last state on the way is the one in which the production ends. -/
theorem after_eq (h : Visits p s path) : (p s).after = path.getLast?.getD s := by
  induction h with
  | pure | current | ahead | aheadIs | advance | fail | tooDeep => rfl
  | expect k s => exact after_expect k s
  | bind_reads _ reads _ ih ih' =>
    rw [after_bind_of_reads reads, ih', List.getLast?_append, Option.getD_or, ← ih, reads.2]
  | bind_fails _ fails ih => rw [after_bind_of_fails fails, ih]
  | nested within _ _ =>
    rw [after_nested within, List.getLast?_cons, List.getLast?_append]
    rfl
  | nested_tooDeep beyond => exact after_nested_of_not beyond
  | while_stop stop => rw [whileAhead_of_ne _ stop]; rfl
  | while_fails goes _ fails ih =>
    rw [after_whileAhead_of_fails goes fails, ih, List.getLast?_cons]
    rfl
  | while_reads goes _ reads _ ih ih' =>
    rw [after_whileAhead_of_reads goes reads, ih', List.getLast?_cons, List.getLast?_append,
      Option.getD_or, ← ih, reads.2]
    rfl
  | until_end stop => rw [untilEnd_of_end stop]; rfl
  | until_fails goes _ fails ih => rw [after_untilEnd_of_fails goes fails, ih]
  | until_reads goes _ reads _ ih ih' =>
    rw [after_untilEnd_of_reads goes reads, ih', List.getLast?_append, Option.getD_or, ← ih,
      reads.2]
  | levels _ ih => exact ih

theorem getLast_eq (h : Visits p s path) :
    (s :: path).getLast (List.cons_ne_nil s path) = (p s).after := by
  rw [h.after_eq]
  exact Option.some.inj ((List.getLast?_eq_some_getLast _).symm.trans List.getLast?_cons)

end Visits

/-! ## On the way -/

/-- What a production does to go on to the next state. -/
inductive Step : State → State → Prop
  | advance (s : State) : Step s s.advance
  | note (s : State) (f : Fault) : Step s (s.note f)
  | deeper {s : State} (within : s.depth < nestingLimit) : Step s s.deeper
  | shallower (s : State) : Step s s.shallower

/-- A way may go on from the last state of another one. -/
theorem isChain_append {R : State → State → Prop} {more : List State}
    (h : (s :: path).IsChain R) (ht : path.getLast?.getD s = t) (h' : (t :: more).IsChain R) :
    (s :: (path ++ more)).IsChain R := by
  induction path generalizing s with
  | nil =>
    rw [← ht] at h'
    exact h'
  | cons u path ih =>
    obtain ⟨hfirst, hrest⟩ := List.isChain_cons_cons.mp h
    rw [List.getLast?_cons] at ht
    exact .cons_cons hfirst (ih hrest ht)

namespace Visits

/-- A production goes on step by step. -/
theorem isChain (h : Visits p s path) : (s :: path).IsChain Step := by
  induction h with
  | pure | current | ahead | aheadIs | while_stop | until_end => exact .singleton _
  | advance s => exact List.isChain_pair.mpr (.advance s)
  | fail f s => exact List.isChain_pair.mpr (.note s f)
  | tooDeep s => exact List.isChain_pair.mpr (.note s _)
  | expect k s =>
    rw [List.isChain_pair]
    split
    · exact .advance s
    · exact .note s _
  | bind_reads first reads _ ih ih' =>
    exact isChain_append ih (first.after_eq.symm.trans reads.2) ih'
  | bind_fails _ _ ih => exact ih
  | nested within inner ih =>
    exact .cons_cons (.deeper within)
      (isChain_append ih inner.after_eq.symm (List.isChain_pair.mpr (.shallower _)))
  | @nested_tooDeep _ _ s _ => exact List.isChain_pair.mpr (.note s _)
  | @while_fails _ _ _ _ _ s _ _ _ _ ih => exact .cons_cons (.advance s) ih
  | @while_reads _ _ _ _ _ s _ _ _ _ round reads _ ih ih' =>
    exact .cons_cons (.advance s) (isChain_append ih (round.after_eq.symm.trans reads.2) ih')
  | until_fails _ _ _ ih => exact ih
  | until_reads _ round reads _ ih ih' =>
    exact isChain_append ih (round.after_eq.symm.trans reads.2) ih'
  | levels _ ih => exact ih

/-- What every step keeps holds wherever the production goes. -/
theorem of_step {I : State → Prop} (hI : ∀ ⦃s t⦄, Step s t → I s → I t) (h : Visits p s path)
    (hs : I s) : ∀ t ∈ path, I t :=
  h.isChain.cons_induction I path hI hs

end Visits

/-! ## There is always a way -/

/-- A production reads something or fails. -/
theorem reads_or_fails (p : Production α) (s : State) :
    (∃ a, Reads p s a (p s).after) ∨ ∃ e, Fails p s e := by
  cases h : (p s).result with
  | ok a => exact .inl ⟨a, h, rfl⟩
  | error e => exact .inr ⟨e, h⟩

/-- A loop has a way because its rounds come to an end. -/
theorem exists_visits_whileAhead {wanted : Kind → Bool} {stops : wanted .endOfText = false}
    (h : ∀ s, ∃ path, Visits p s path) (s : State) :
    ∃ path, Visits (whileAhead wanted stops p) s path := by
  induction s using induction_on_rounds stops p with
  | round s ih =>
    by_cases hwanted : wanted s.ahead.kind = true
    · obtain ⟨path, hpath⟩ := h s.advance
      rcases reads_or_fails p s.advance with ⟨a, hreads⟩ | ⟨e, hfails⟩
      · obtain ⟨more, hmore⟩ := ih hwanted a _ hreads
        exact ⟨_, .while_reads hwanted hpath hreads hmore⟩
      · exact ⟨_, .while_fails hwanted hpath hfails⟩
    · exact ⟨_, .while_stop (by simpa using hwanted)⟩

theorem exists_visits_untilEnd {takes : Consumes p} (h : ∀ s, ∃ path, Visits p s path)
    (s : State) : ∃ path, Visits (untilEnd p takes) s path := by
  induction s using induction_on_takes takes with
  | round s ih =>
    by_cases hend : s.current.kind = .endOfText
    · exact ⟨_, .until_end hend⟩
    · obtain ⟨path, hpath⟩ := h s
      rcases reads_or_fails p s with ⟨a, hreads⟩ | ⟨e, hfails⟩
      · obtain ⟨more, hmore⟩ := ih a _ hreads
        exact ⟨_, .until_reads hend hpath hreads hmore⟩
      · exact ⟨_, .until_fails hend hpath hfails⟩

/-- Whatever a production is started in, it has a way to its end. -/
theorem Built.exists_visits (h : Built p) : ∀ s, ∃ path, Visits p s path := by
  induction h with
  | pure a => exact fun s => ⟨_, .pure a s⟩
  | current => exact fun s => ⟨_, .current s⟩
  | ahead => exact fun s => ⟨_, .ahead s⟩
  | aheadIs k => exact fun s => ⟨_, .aheadIs k s⟩
  | advance => exact fun s => ⟨_, .advance s⟩
  | fail f => exact fun s => ⟨_, .fail f s⟩
  | tooDeep => exact fun s => ⟨_, .tooDeep s⟩
  | expect k => exact fun s => ⟨_, .expect k s⟩
  | @bind _ _ p _ _ _ ih ih' =>
    intro s
    obtain ⟨path, hpath⟩ := ih s
    rcases reads_or_fails p s with ⟨a, hreads⟩ | ⟨e, hfails⟩
    · obtain ⟨more, hmore⟩ := ih' a (p s).after
      exact ⟨_, .bind_reads hpath hreads hmore⟩
    · exact ⟨_, .bind_fails hpath hfails⟩
  | nested _ ih =>
    intro s
    by_cases hdepth : s.depth < nestingLimit
    · obtain ⟨path, hpath⟩ := ih s.deeper
      exact ⟨_, .nested hdepth hpath⟩
    · exact ⟨_, .nested_tooDeep hdepth⟩
  | whileAhead _ _ ih => exact exists_visits_whileAhead ih
  | untilEnd _ _ ih => exact exists_visits_untilEnd ih
  | levels _ ih =>
    intro s
    obtain ⟨path, hpath⟩ := ih s.levels s
    exact ⟨path, .levels hpath⟩

end Grammar
end CircuitText
