import CircuitText.Grammar.Depth

/-!
# Comparing two runs

Productions know little of the state they work on.  They look at the kind and the literal of the
two tokens in sight, they move on, they count the depth, and a fault that they note blames a token
that they have seen.  So two states that stay alike in all of this lead every production to the same
result.

A `Comparison` says in what sense states are alike, with one clause for each thing that a production
can do; `steady_program` is what then holds of a program, by one case for each way in which
productions are built.  The second run may be on other tokens, or it may be the same run over again,
which is how a property of a single run is proved.

* `Comparison` --- a relation between states that productions respect;
* `Comparison.Parallel`, `Comparison.Steady` --- productions that keep two runs together;
* `Comparison.parallel_bind`, `Comparison.steady_whileAhead`, … --- the ways to build them;
* `Comparison.steady_program` --- programs.
-/

namespace CircuitText
namespace Grammar

/-! ## The equations of `untilEnd` -/

section Equations

variable {α : Type} {p : Production α} {takes : Consumes p} {s u : State}

theorem untilEnd_of_end (h : s.current.kind = .endOfText) :
    untilEnd p takes s = ⟨.ok [], s, Nat.le_refl _⟩ := by
  rw [untilEnd, if_pos h]

theorem untilEnd_of_error {f : Fault} {le : u.remaining ≤ s.remaining}
    (hend : s.current.kind ≠ .endOfText) (h : p s = ⟨.error f, u, le⟩) :
    untilEnd p takes s = ⟨.error f, u, le⟩ := by
  rw [untilEnd, if_neg hend]
  split
  · rename_i g v le' h'
    rw [h] at h'
    cases h'
    rfl
  · rename_i b v le' h'
    rw [h] at h'
    cases h'

theorem untilEnd_of_ok {a : α} {le : u.remaining ≤ s.remaining} (hend : s.current.kind ≠ .endOfText)
    (h : p s = ⟨.ok a, u, le⟩) : untilEnd p takes s =
      match untilEnd p takes u with
      | ⟨.error f, v, le'⟩ => ⟨.error f, v, Nat.le_trans le' le⟩
      | ⟨.ok as, v, le'⟩ => ⟨.ok (a :: as), v, Nat.le_trans le' le⟩ := by
  rw [untilEnd, if_neg hend]
  split
  · rename_i g v le' h'
    rw [h] at h'
    cases h'
  · rename_i b v le' h'
    rw [h] at h'
    cases h'
    rfl

end Equations

/-! ## Comparisons -/

/-- What two runs have in common as long as they last, and when they are given up. -/
structure Comparison where
  /-- Tokens at the same place of the two runs. -/
  tokens : Token → Token → Prop
  /-- States of the two runs at the same time. -/
  states : State → State → Prop
  /-- The faults that end the two runs, and the states in which they end. -/
  stopped : Fault → Fault → State → State → Prop
  kind_eq {k l : Token} : tokens k l → k.kind = l.kind
  literal_eq {k l : Token} : tokens k l → k.literal = l.literal
  tokens_current {s t : State} : states s t → tokens s.current t.current
  tokens_ahead {s t : State} : states s t → tokens s.ahead t.ahead
  states_advance {s t : State} : states s t → states s.advance t.advance
  depth_eq {s t : State} : states s t → s.depth = t.depth
  states_deeper {s t : State} : states s t → states s.deeper t.deeper
  states_shallower {s t : State} : states s t → states s.shallower t.shallower
  /-- A fault that is no illegal character and blames a token that was seen ends a run. -/
  stopped_note {s t : State} {k l : Token} {cause : Cause} : states s t → tokens k l →
    cause.category ≠ .lexical →
      stopped ⟨cause, k.span⟩ ⟨cause, l.span⟩ (s.note ⟨cause, k.span⟩) (t.note ⟨cause, l.span⟩)
  stopped_shallower {f g : Fault} {s t : State} : stopped f g s t →
    stopped f g s.shallower t.shallower

namespace Comparison

variable {C : Comparison} {α β γ δ : Type} {V : α → β → Prop} {W : γ → δ → Prop}

/-- Both outcomes are successes or both are failures, and what they leave is alike. -/
inductive Agree (C : Comparison) (V : α → β → Prop) {s t : State} :
    Outcome s α → Outcome t β → Prop
  | ok {a : α} {b : β} {u v : State} {le : u.remaining ≤ s.remaining}
      {le' : v.remaining ≤ t.remaining} (value : V a b) (states : C.states u v) :
      Agree C V ⟨.ok a, u, le⟩ ⟨.ok b, v, le'⟩
  | error {f g : Fault} {u v : State} {le : u.remaining ≤ s.remaining}
      {le' : v.remaining ≤ t.remaining} (stopped : C.stopped f g u v) :
      Agree C V ⟨.error f, u, le⟩ ⟨.error g, v, le'⟩

/-- Started in states that are alike, the productions end alike. -/
def Parallel (C : Comparison) (V : α → β → Prop) (p : Production α) (q : Production β) : Prop :=
  ∀ s t, C.states s t → C.Agree V (p s) (q t)

/-- Started in states that are alike, the production gives the same and ends alike. -/
abbrev Steady (C : Comparison) (p : Production α) : Prop := C.Parallel Eq p p

/-! ## The parts that productions are built from -/

theorem parallel_pure {a : α} {b : β} (h : V a b) : C.Parallel V (pure a) (pure b) :=
  fun _ _ hst => .ok h hst

theorem steady_pure (a : α) : C.Steady (pure a) := parallel_pure rfl

theorem parallel_bind {p : Production α} {q : Production β} {f : α → Production γ}
    {g : β → Production δ} (hpq : C.Parallel V p q)
    (hfg : ∀ a b, V a b → C.Parallel W (f a) (g b)) : C.Parallel W (p >>= f) (q >>= g) := by
  intro s t hst
  have h := hpq s t hst
  change C.Agree W (Production.bind p f s) (Production.bind q g t)
  unfold Production.bind
  generalize p s = o at h
  generalize q t = o' at h
  cases h with
  | @ok a b u v le le' value states =>
    have hnext := hfg a b value u v states
    dsimp only
    generalize f a u = o at hnext
    generalize g b v = o' at hnext
    cases hnext with
    | ok value states => exact .ok value states
    | error stopped => exact .error stopped
  | error stopped => exact .error stopped

theorem steady_bind {p : Production α} {f : α → Production γ} (hp : C.Steady p)
    (hf : ∀ a, C.Steady (f a)) : C.Steady (p >>= f) := by
  refine parallel_bind hp fun a b hab => ?_
  subst hab
  exact hf a

theorem parallel_current : C.Parallel C.tokens current current :=
  fun _ _ hst => .ok (C.tokens_current hst) hst

theorem parallel_ahead : C.Parallel C.tokens ahead ahead :=
  fun _ _ hst => .ok (C.tokens_ahead hst) hst

theorem steady_aheadIs (k : Kind) : C.Steady (aheadIs k) := by
  intro s t hst
  refine .ok ?_ hst
  rw [C.kind_eq (C.tokens_ahead hst)]

theorem steady_advance : C.Steady advance := fun _ _ hst => .ok rfl (C.states_advance hst)

/-- What follows a token that was seen may use the token itself only to blame it. -/
theorem parallel_current_bind {f : Token → Production γ} {g : Token → Production δ}
    (h : ∀ k l, C.tokens k l → C.Parallel W (f k) (g l)) :
    C.Parallel W (current >>= f) (current >>= g) :=
  parallel_bind parallel_current h

theorem parallel_fail {cause : Cause} {k l : Token} (h : C.tokens k l)
    (hcause : cause.category ≠ .lexical) :
    C.Parallel V (fail ⟨cause, k.span⟩) (fail ⟨cause, l.span⟩) :=
  fun _ _ hst => .error (C.stopped_note hst h hcause)

theorem parallel_expected {wanted : Kind} {k l : Token} (h : C.tokens k l) :
    C.Parallel V (fail (.expected wanted k)) (fail (.expected wanted l)) := by
  rw [Fault.expected, Fault.expected, C.kind_eq h]
  exact parallel_fail h (by simp [Cause.category])

theorem parallel_unexpected {place : String} {k l : Token} (h : C.tokens k l) :
    C.Parallel V (fail (.unexpected k place)) (fail (.unexpected l place)) := by
  rw [Fault.unexpected, Fault.unexpected, C.kind_eq h]
  exact parallel_fail h (by simp [Cause.category])

theorem steady_expect (k : Kind) : C.Steady (expect k) := by
  intro s t hst
  unfold expect
  rw [C.kind_eq (C.tokens_ahead hst)]
  split
  · exact steady_advance s t hst
  · exact parallel_expected (C.tokens_ahead hst) s t hst

theorem steady_expectName : C.Steady expectName := by
  refine steady_bind (steady_expect _) fun _ => parallel_current_bind fun k l hkl => ?_
  rw [C.literal_eq hkl]
  exact steady_pure _

theorem steady_tooDeep : C.Steady (tooDeep : Production α) := fun s t hst =>
  parallel_fail (C.tokens_current hst) (by simp [Cause.category]) s t hst

theorem steady_nested {p : Production α} (h : C.Steady p) : C.Steady (nested p) := by
  intro s t hst
  unfold nested
  rw [C.depth_eq hst]
  split
  · have hin := h _ _ (C.states_deeper hst)
    generalize p s.deeper = o at hin
    generalize p t.deeper = o' at hin
    cases hin with
    | ok value states => exact .ok value (C.states_shallower states)
    | error stopped => exact .error (C.stopped_shallower stopped)
  · exact steady_tooDeep s t hst

theorem steady_whileAhead {wanted : Kind → Bool} (stops : wanted .endOfText = false)
    {p : Production α} (h : C.Steady p) : C.Steady (whileAhead wanted stops p) := by
  intro s
  induction hn : s.remaining using Nat.strongRecOn generalizing s with
  | ind n ih =>
    intro t hst
    have hkind := C.kind_eq (C.tokens_ahead hst)
    rw [whileAhead, whileAhead]
    by_cases hw : wanted s.ahead.kind = true
    · rw [dif_pos hw, dif_pos (hkind ▸ hw)]
      have hlt : s.advance.remaining < s.remaining :=
        s.remaining_advance_lt fun hend => by simp [hend, stops] at hw
      have hbody := h _ _ (C.states_advance hst)
      generalize p s.advance = o at hbody
      generalize p t.advance = o' at hbody
      cases hbody with
      | @ok a b u v le le' value states =>
        obtain rfl := value
        have hrest := ih u.remaining (by omega) u rfl v states
        dsimp only
        generalize whileAhead wanted stops p u = o at hrest
        generalize whileAhead wanted stops p v = o' at hrest
        cases hrest with
        | ok value states => exact .ok (congrArg (a :: ·) value) states
        | error stopped => exact .error stopped
      | error stopped => exact .error stopped
    · rw [dif_neg hw, dif_neg (hkind ▸ hw)]
      exact .ok rfl hst

theorem steady_untilEnd {p : Production α} (takes : Consumes p) (h : C.Steady p) :
    C.Steady (untilEnd p takes) := by
  intro s
  induction hn : s.remaining using Nat.strongRecOn generalizing s with
  | ind n ih =>
    intro t hst
    have hkind := C.kind_eq (C.tokens_current hst)
    by_cases hend : s.current.kind = .endOfText
    · rw [untilEnd_of_end hend, untilEnd_of_end (hkind ▸ hend)]
      exact .ok rfl hst
    · have hitem := h s t hst
      have hlt := takes s
      generalize hs : p s = o at hitem hlt
      generalize ht : p t = o' at hitem
      cases hitem with
      | @ok a b u v le le' value states =>
        obtain rfl := value
        rw [untilEnd_of_ok hend hs, untilEnd_of_ok (hkind ▸ hend) ht]
        have hrest := ih u.remaining (hn ▸ hlt a rfl) u rfl v states
        generalize untilEnd p takes u = o at hrest
        generalize untilEnd p takes v = o' at hrest
        cases hrest with
        | ok value states => exact .ok (congrArg (a :: ·) value) states
        | error stopped => exact .error stopped
      | error stopped =>
        rw [untilEnd_of_error hend hs, untilEnd_of_error (hkind ▸ hend) ht]
        exact .error stopped

/-! ## Expressions -/

theorem steady_bit : C.Steady bit := by
  refine parallel_current_bind fun k l hkl => ?_
  rw [C.literal_eq hkl]
  split
  · exact steady_pure _
  · split
    · exact steady_pure _
    · exact parallel_fail hkl (by simp [Cause.category])

theorem steady_operandOver {inner : Production Expression} (h : C.Steady inner) :
    C.Steady (operandOver inner) := by
  refine parallel_current_bind fun k l hkl => ?_
  rw [C.kind_eq hkl, C.literal_eq hkl]
  split
  · exact steady_pure _
  · exact steady_bit
  · exact steady_nested (steady_bind steady_advance fun _ => steady_bind h fun _ =>
      steady_bind (steady_expect _) fun _ => steady_pure _)
  · exact steady_nested (steady_bind steady_advance fun _ => steady_bind h fun _ =>
      steady_pure _)
  · exact steady_bind steady_expectName fun _ => steady_pure _
  · exact parallel_unexpected hkl

theorem steady_operationOver {inner : Production Expression} (h : C.Steady inner) :
    C.Steady (operationOver inner) := by
  refine parallel_current_bind fun k l hkl => ?_
  rw [C.literal_eq hkl]
  exact steady_bind steady_advance fun _ => steady_bind (steady_operandOver h) fun _ =>
    steady_pure _

theorem steady_tailOver {inner : Production Expression} (h : C.Steady inner) (left : Expression) :
    C.Steady (tailOver inner left) :=
  steady_bind (steady_whileAhead rfl (steady_operationOver h)) fun _ => steady_pure _

theorem steady_expressionOver {inner : Production Expression} (h : C.Steady inner) :
    C.Steady (expressionOver inner) :=
  steady_bind (steady_operandOver h) fun _ => steady_tailOver h _

theorem steady_expressionWithin (levels : Nat) : C.Steady (expressionWithin levels) := by
  induction levels with
  | zero => exact steady_expressionOver steady_tooDeep
  | succ levels ih => exact steady_expressionOver ih

/-- States that are alike have as many levels left. -/
theorem levels_eq {s t : State} (h : C.states s t) : s.levels = t.levels := by
  rw [State.levels, State.levels, C.depth_eq h]

theorem steady_expression : C.Steady expression := by
  intro s t hst
  unfold expression
  rw [levels_eq hst]
  exact steady_expressionWithin _ s t hst

theorem steady_expressionTail (left : Expression) : C.Steady (expressionTail left) :=
  steady_tailOver steady_expression left

/-! ## Statements -/

theorem steady_itemAfterComma {item : Production α} (h : C.Steady item) :
    C.Steady (itemAfterComma item) := by
  refine steady_bind (steady_aheadIs _) fun closes => ?_
  split
  · exact steady_pure _
  · exact steady_bind steady_advance fun _ => steady_bind h fun _ => steady_pure _

theorem steady_listWithComma {item : Production α} (h : C.Steady item) :
    C.Steady (listWithComma item) := by
  refine steady_bind (steady_aheadIs _) fun closes => ?_
  split
  · exact steady_bind steady_advance fun _ => steady_pure _
  · exact steady_bind steady_advance fun _ => steady_bind h fun _ =>
      steady_bind (steady_aheadIs _) fun _ =>
      steady_bind (steady_whileAhead rfl (steady_itemAfterComma h)) fun _ =>
      steady_bind (steady_expect _) fun _ => steady_pure _

theorem steady_list {item : Production α} (h : C.Steady item) : C.Steady (list item) :=
  steady_bind (steady_listWithComma h) fun _ => steady_pure _

theorem steady_registerName : C.Steady registerName := by
  refine parallel_current_bind fun k l hkl => ?_
  rw [C.kind_eq hkl, C.literal_eq hkl]
  split
  · exact steady_pure _
  · exact parallel_expected hkl

theorem steady_parameter : C.Steady parameter := by
  refine parallel_current_bind fun k l hkl => ?_
  rw [C.kind_eq hkl, C.literal_eq hkl]
  split
  · exact steady_bind steady_expectName fun _ => steady_pure _
  · exact steady_pure _
  · exact parallel_unexpected hkl

theorem steady_delay : C.Steady delay := by
  refine parallel_current_bind fun k l hkl => ?_
  rw [C.literal_eq hkl]
  split
  · exact parallel_fail hkl (by simp [Cause.category])
  · refine parallel_bind parallel_ahead fun unit unit' hunit => ?_
    rw [C.kind_eq hunit, C.literal_eq hunit]
    split
    · exact parallel_fail hunit (by simp [Cause.category])
    · refine parallel_bind steady_advance fun _ _ _ => ?_
      split
      · exact parallel_fail hunit (by simp [Cause.category])
      · split
        · exact parallel_fail hkl (by simp [Cause.category])
        · exact steady_pure _

theorem steady_pipeOutputs : C.Steady pipeOutputs := by
  refine steady_bind (steady_aheadIs _) fun inList => ?_
  split
  · exact steady_bind steady_advance fun _ => steady_list steady_parameter
  · exact steady_bind steady_advance fun _ => steady_bind steady_parameter fun _ =>
      steady_pure _

theorem steady_pipeFrom (inputs : List Expression) : C.Steady (pipeFrom inputs) :=
  steady_bind (steady_expect _) fun _ => steady_bind steady_pipeOutputs fun _ =>
    steady_bind (steady_expect _) fun _ => steady_pure _

theorem steady_pipe : C.Steady pipe :=
  steady_bind steady_expression fun _ => steady_pipeFrom _

theorem steady_groupOrPipe : C.Steady groupOrPipe := by
  refine steady_bind steady_expectName fun name => steady_bind (steady_aheadIs _) fun opens => ?_
  split
  · exact steady_bind steady_advance fun _ => steady_bind (steady_list steady_parameter) fun _ =>
      steady_bind (steady_expect _) fun _ => steady_pure _
  · exact steady_bind (steady_expressionTail _) fun _ => steady_pipeFrom _

theorem steady_callOutputs : C.Steady callOutputs := by
  refine steady_bind (steady_aheadIs _) fun arrow => ?_
  split
  · exact steady_bind steady_advance fun _ => steady_bind (steady_expect _) fun _ =>
      steady_list steady_parameter
  · exact steady_pure _

theorem steady_call : C.Steady call := by
  refine parallel_current_bind fun k l hkl => ?_
  rw [C.literal_eq hkl]
  exact steady_bind steady_advance fun _ => steady_bind (steady_list steady_expression) fun _ =>
    steady_bind steady_callOutputs fun _ => steady_bind (steady_expect _) fun _ => steady_pure _

theorem steady_pipeFromBracket : C.Steady pipeFromBracket := by
  refine steady_bind (steady_listWithComma steady_expression) fun inputs => ?_
  split
  · refine steady_bind (steady_aheadIs _) fun goesOn => ?_
    split
    · exact steady_bind (steady_expressionTail _) fun _ => steady_pipeFrom _
    · exact steady_pipeFrom _
  · exact steady_pipeFrom _

theorem steady_counter : C.Steady counter := by
  refine steady_bind (steady_aheadIs _) fun counts => ?_
  split
  · exact steady_bind steady_advance fun _ => steady_bind steady_expectName fun _ =>
      steady_pure _
  · exact steady_pure _

theorem steady_clockOver {inner : Production (List Statement)} (h : C.Steady inner) :
    C.Steady (clockOver inner) :=
  steady_bind (steady_expect _) fun _ => steady_bind steady_delay fun _ =>
    steady_bind steady_counter fun _ => steady_bind (steady_expect _) fun _ =>
    steady_bind (steady_nested h) fun _ => steady_pure _

theorem steady_statementOver {inner : Production (List Statement)} (h : C.Steady inner) :
    C.Steady (statementOver inner) := by
  refine parallel_current_bind fun k l hkl => ?_
  rw [C.kind_eq hkl]
  split
  · exact steady_groupOrPipe
  · exact steady_clockOver h
  · refine steady_bind (steady_aheadIs _) fun opens => ?_
    split
    · exact steady_call
    · exact steady_pipe
  · exact steady_pipe
  · exact steady_pipe
  · exact steady_pipeFromBracket
  · exact parallel_unexpected hkl

theorem steady_blockOver {inner : Production (List Statement)} (h : C.Steady inner) :
    C.Steady (blockOver inner) :=
  steady_bind (steady_whileAhead rfl (steady_statementOver h)) fun _ =>
    steady_bind (steady_expect _) fun _ => steady_pure _

theorem steady_blockWithin (levels : Nat) : C.Steady (blockWithin levels) := by
  induction levels with
  | zero => exact steady_blockOver steady_tooDeep
  | succ levels ih => exact steady_blockOver ih

theorem steady_block : C.Steady block := by
  intro s t hst
  unfold block
  rw [levels_eq hst]
  exact steady_blockWithin _ s t hst

/-! ## Programs -/

theorem steady_nameMark : C.Steady nameMark := by
  refine steady_bind (steady_aheadIs _) fun byName => ?_
  split
  · exact steady_bind steady_advance fun _ => steady_pure _
  · exact steady_pure _

theorem steady_inclusion : C.Steady inclusion := by
  refine steady_bind steady_nameMark fun _ => steady_bind (steady_expect _) fun _ =>
    parallel_current_bind fun k l hkl => ?_
  rw [C.literal_eq hkl]
  exact steady_bind (steady_expect _) fun _ => steady_pure _

theorem steady_registers : C.Steady registers := by
  refine steady_bind (steady_aheadIs _) fun opens => ?_
  split
  · exact steady_bind steady_advance fun _ =>
      steady_bind (steady_list steady_registerName) fun _ =>
      steady_bind (steady_expect _) fun _ => steady_bind (steady_expect _) fun _ =>
      steady_bind (steady_list steady_registerName) fun _ => steady_pure _
  · exact steady_pure _

theorem steady_circuit : C.Steady circuit :=
  steady_bind steady_expectName fun _ => steady_bind steady_registers fun _ =>
    steady_bind (steady_expect _) fun _ => steady_bind steady_block fun _ => steady_pure _

theorem steady_item : C.Steady item := by
  refine parallel_current_bind fun k l hkl => ?_
  rw [C.kind_eq hkl]
  split
  · exact steady_bind steady_circuit fun _ => steady_bind steady_advance fun _ => steady_pure _
  · exact steady_bind steady_inclusion fun _ => steady_bind steady_advance fun _ =>
      steady_pure _
  · exact parallel_fail hkl (by simp [Cause.category])

theorem steady_programName : C.Steady programName := by
  refine parallel_current_bind fun k l hkl => ?_
  rw [C.kind_eq hkl]
  split
  · refine steady_bind (steady_expect _) fun _ => steady_bind (steady_expect _) fun _ =>
      parallel_current_bind fun name name' hname => ?_
    rw [C.literal_eq hname]
    exact steady_bind (steady_expect _) fun _ => steady_bind steady_advance fun _ =>
      steady_pure _
  · exact steady_pure _

/-- Two runs that are alike at the beginning of a program are alike at its end. -/
theorem steady_program : C.Steady program :=
  steady_bind steady_programName fun _ =>
    steady_bind (steady_untilEnd consumes_item steady_item) fun _ => steady_pure _

end Comparison
end Grammar
end CircuitText
