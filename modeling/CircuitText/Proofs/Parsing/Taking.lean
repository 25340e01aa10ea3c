import CircuitText.Proofs.Faults.Record
import CircuitText.Proofs.Parsing.Visiting

/-!
# Never beyond the end

A supply gives its end token as often as it is asked for, so nothing keeps a production from moving
on for ever.  Productions keep themselves from it: each moves on only from a token, or to one that
it has seen ahead and that is not the end.

`StandsAt supply i s` says that the current token of `s` is number `i` of the supply.  It stays the
number of the current token when a production notes a fault or changes the level, and moving on adds
one to it.  `AtLeast supply k s` says that `k` tokens have not been passed yet, the current one
included; `AtLeast supply 0 s` is all that can be said when the end token may be the current one.
`Leads supply j p k` says that the production `p`, started where `j` tokens have not been passed,
never passes the end token, and that `k` tokens have not been passed when it succeeds.

There is one law for each way in which productions are built.  Most productions are entered with a
token or with the end token in `current`, and have a token there when they succeed.

* `Supply.give`, `StandsAt` --- the tokens of a supply by their numbers;
* `AtLeast`, `Leads` --- tokens that have not been passed;
* `leads_bind`, `leads_whileAhead`, … --- the laws;
* `leads_program` --- a program does not pass the end.
-/

namespace CircuitText

namespace Supply

/-- The token that is taken from the supply behind so many others. -/
def give (supply : Supply) (i : Nat) : Token :=
  supply.upcoming[i]?.getD (.endOfText supply.finish)

theorem give_past (supply : Supply) (m i : Nat) : (supply.past m).give i = supply.give (m + i) := by
  simp [give, past, List.getElem?_drop]

theorem next_fst (supply : Supply) : supply.next.1 = supply.give 0 := by
  cases h : supply.upcoming with
  | nil => simp [next_of_nil h, give, h]
  | cons t ts => simp [next_of_cons h, give, h]

/-- Only behind the tokens the end token is given. -/
theorem lt_of_kind_give_ne {supply : Supply} {i : Nat} (h : (supply.give i).kind ≠ .endOfText) :
    i < supply.upcoming.length := by
  refine Nat.lt_of_not_le fun hle => h ?_
  rw [give, List.getElem?_eq_none hle]
  rfl

end Supply

namespace Grammar

variable {α β : Type} {p : Production α} {supply : Supply} {s t : State} {i j k : Nat}

/-! ## Where a state stands -/

/-- The current token is the one that is taken from the supply behind `i` others, and the one ahead
is the next. -/
structure StandsAt (supply : Supply) (i : Nat) (s : State) : Prop where
  supply_eq : s.supply = supply.past (i + 2)
  current_eq : s.current = supply.give i
  ahead_eq : s.ahead = supply.give (i + 1)

theorem StandsAt.advance (h : StandsAt supply i s) : StandsAt supply (i + 1) s.advance where
  supply_eq := by rw [State.supply_advance, h.supply_eq, Supply.next_eq_past, Supply.past_past]
  current_eq := by rw [current_advance, h.ahead_eq]
  ahead_eq := by rw [State.ahead_advance, h.supply_eq, Supply.next_fst, Supply.give_past]

theorem Step.exists_standsAt (h : Step s t) (hs : ∃ i, StandsAt supply i s) :
    ∃ i, StandsAt supply i t := by
  obtain ⟨i, hi⟩ := hs
  cases h with
  | advance => exact ⟨i + 1, hi.advance⟩
  | note | deeper | shallower => exact ⟨i, hi.supply_eq, hi.current_eq, hi.ahead_eq⟩

/-- Of the tokens of the supply, at least `k` have not been passed, the current one included. -/
def AtLeast (supply : Supply) (k : Nat) (s : State) : Prop :=
  ∃ i, StandsAt supply i s ∧ i + k ≤ supply.upcoming.length

namespace AtLeast

theorem mono (h : AtLeast supply k s) (hle : j ≤ k) : AtLeast supply j s := by
  obtain ⟨i, hi, hlength⟩ := h
  exact ⟨i, hi, by omega⟩

theorem advance (h : AtLeast supply (k + 1) s) : AtLeast supply k s.advance := by
  obtain ⟨i, hi, hlength⟩ := h
  exact ⟨i + 1, hi.advance, by omega⟩

theorem note (h : AtLeast supply k s) (f : Fault) : AtLeast supply k (s.note f) := by
  obtain ⟨i, ⟨hsupply, hcurrent, hahead⟩, hlength⟩ := h
  exact ⟨i, ⟨hsupply, hcurrent, hahead⟩, hlength⟩

theorem deeper (h : AtLeast supply k s) : AtLeast supply k s.deeper := by
  obtain ⟨i, ⟨hsupply, hcurrent, hahead⟩, hlength⟩ := h
  exact ⟨i, ⟨hsupply, hcurrent, hahead⟩, hlength⟩

theorem shallower (h : AtLeast supply k s) : AtLeast supply k s.shallower := by
  obtain ⟨i, ⟨hsupply, hcurrent, hahead⟩, hlength⟩ := h
  exact ⟨i, ⟨hsupply, hcurrent, hahead⟩, hlength⟩

/-- A current token that is not the end token has not been passed. -/
theorem of_current (h : AtLeast supply k s) (hne : s.current.kind ≠ .endOfText) :
    AtLeast supply 1 s := by
  obtain ⟨i, hi, -⟩ := h
  rw [hi.current_eq] at hne
  exact ⟨i, hi, Supply.lt_of_kind_give_ne hne⟩

/-- With a token ahead that is not the end token, neither have been passed. -/
theorem of_ahead (h : AtLeast supply k s) (hne : s.ahead.kind ≠ .endOfText) :
    AtLeast supply 2 s := by
  obtain ⟨i, hi, -⟩ := h
  rw [hi.ahead_eq] at hne
  exact ⟨i, hi, Supply.lt_of_kind_give_ne hne⟩

end AtLeast

/-! ## Productions that do not pass the end -/

/-- Started in `s`, the production does not pass the end token, and if it succeeds then `k` tokens
have not been passed. -/
def LeadsAt (supply : Supply) (s : State) (p : Production α) (k : Nat) : Prop :=
  AtLeast supply 0 (p s).after ∧ ∀ a t, Reads p s a t → AtLeast supply k t

/-- The same, started wherever `j` tokens have not been passed. -/
def Leads (supply : Supply) (j : Nat) (p : Production α) (k : Nat) : Prop :=
  ∀ s, AtLeast supply j s → LeadsAt supply s p k

theorem Leads.mono (h : Leads supply j p k) (hle : j ≤ i) : Leads supply i p k :=
  fun s hs => h s (hs.mono hle)

section Laws

variable {f : α → Production β}

theorem leads_pure (a : α) : Leads supply k (pure a : Production α) k := fun _ hs =>
  ⟨hs.mono (Nat.zero_le k), fun _ _ h => (reads_pure.mp h).2 ▸ hs⟩

theorem leads_fail (f : Fault) : Leads supply j (fail f : Production α) k := fun _ hs =>
  ⟨(hs.mono (Nat.zero_le j)).note f, fun _ _ h => absurd h not_reads_fail⟩

theorem leads_tooDeep : Leads supply j (tooDeep : Production α) k := fun s hs =>
  leads_fail _ s hs

theorem leads_advance : Leads supply (k + 1) advance k := fun _ hs =>
  ⟨hs.advance.mono (Nat.zero_le k), fun _ _ h => reads_advance.mp h ▸ hs.advance⟩

theorem leadsAt_bind (hp : LeadsAt supply s p j) (hf : ∀ a, Leads supply j (f a) k) :
    LeadsAt supply s (p >>= f) k := by
  obtain ⟨hafter, hreads⟩ := hp
  refine ⟨?_, fun b u hb => ?_⟩
  · rcases reads_or_fails p s with ⟨a, ha⟩ | ⟨e, he⟩
    · rw [after_bind_of_reads ha]
      exact (hf a _ (hreads a _ ha)).1
    · rwa [after_bind_of_fails he]
  · obtain ⟨a, t, ha, hb⟩ := reads_bind.mp hb
    exact (hf a t (hreads a t ha)).2 b u hb

theorem leads_bind (hp : Leads supply i p j) (hf : ∀ a, Leads supply j (f a) k) :
    Leads supply i (p >>= f) k := fun s hs => leadsAt_bind (hp s hs) hf

/-! What looks at a token does not move, and what follows may depend on the token. -/

theorem leadsAt_current_bind {f : Token → Production β} (h : LeadsAt supply s (f s.current) k) :
    LeadsAt supply s (current >>= f) k := h

theorem leadsAt_ahead_bind {f : Token → Production β} (h : LeadsAt supply s (f s.ahead) k) :
    LeadsAt supply s (ahead >>= f) k := h

theorem leadsAt_aheadIs_bind {w : Kind} {f : Bool → Production β}
    (h : LeadsAt supply s (f (s.ahead.kind == w)) k) : LeadsAt supply s (aheadIs w >>= f) k := h

theorem leads_current_bind {f : Token → Production β} (h : ∀ t, Leads supply j (f t) k) :
    Leads supply j (current >>= f) k := fun s hs => leadsAt_current_bind (h s.current s hs)

/-- Where a token of this kind is ahead one may move on to it. -/
theorem leads_ifAhead {w : Kind} (hw : w ≠ .endOfText) {there elsewhere : Production β}
    (hthere : Leads supply 2 there k) (helse : Leads supply j elsewhere k) :
    Leads supply j (aheadIs w >>= fun b => if b = true then there else elsewhere) k := by
  intro s hs
  refine leadsAt_aheadIs_bind ?_
  split
  · rename_i h
    exact hthere s (hs.of_ahead (by rwa [eq_of_beq h]))
  · exact helse s hs

theorem leads_expect {w : Kind} (hw : w ≠ .endOfText) : Leads supply j (expect w) 1 := by
  intro s hs
  have hmoved (h : s.ahead.kind = w) : AtLeast supply 1 s.advance :=
    (hs.of_ahead (by rwa [h])).advance
  refine ⟨?_, fun _ t h => ?_⟩
  · rw [after_expect]
    split
    · rename_i hahead
      exact (hmoved hahead).mono (Nat.zero_le 1)
    · exact (hs.mono (Nat.zero_le j)).note _
  · obtain ⟨hahead, rfl⟩ := reads_expect.mp h
    exact hmoved hahead

theorem leads_expectName : Leads supply j expectName 1 :=
  leads_bind (leads_expect (by decide)) fun _ => leads_current_bind fun _ => leads_pure _

theorem leads_nested (h : Leads supply j p k) : Leads supply j (nested p) k := by
  intro s hs
  obtain ⟨hafter, hreads⟩ := h s.deeper hs.deeper
  refine ⟨?_, fun a t h => ?_⟩
  · by_cases hdepth : s.depth < nestingLimit
    · rw [after_nested hdepth]
      exact hafter.shallower
    · rw [after_nested_of_not hdepth]
      exact (hs.mono (Nat.zero_le j)).note _
  · obtain ⟨-, u, hu, rfl⟩ := reads_nested.mp h
    exact (hreads a u hu).shallower

/-- Each round of a loop begins with a token that was ahead. -/
theorem leads_whileAhead {wanted : Kind → Bool} {stops : wanted .endOfText = false}
    (h : Leads supply 1 p 1) : Leads supply 1 (whileAhead wanted stops p) 1 := by
  intro s hs
  induction s using induction_on_rounds stops p with
  | round s ih =>
    by_cases hwanted : wanted s.ahead.kind = true
    · have hne : s.ahead.kind ≠ .endOfText := fun hend => by simp [hend, stops] at hwanted
      obtain ⟨hafter, hround⟩ := h s.advance (hs.of_ahead hne).advance
      have hrest : ∀ a t, Reads p s.advance a t → LeadsAt supply t (whileAhead wanted stops p) 1 :=
        fun a t ht => ih hwanted a t ht (hround a t ht)
      refine ⟨?_, fun as u hu => ?_⟩
      · rcases reads_or_fails p s.advance with ⟨a, ha⟩ | ⟨e, he⟩
        · rw [after_whileAhead_of_reads hwanted ha]
          exact (hrest a _ ha).1
        · rwa [after_whileAhead_of_fails hwanted he]
      · cases as with
        | nil => simp [(reads_whileAhead_nil.mp hu).1] at hwanted
        | cons a as =>
          obtain ⟨-, t, ht, hu⟩ := reads_whileAhead_cons.mp hu
          exact (hrest a t ht).2 as u hu
    · have hstop := whileAhead_of_ne (p := p) stops (by simpa using hwanted)
      exact ⟨by rw [hstop]; exact hs.mono (Nat.zero_le 1),
        fun _ u hu => ((reads_of_eq_ok hstop).mp hu).2 ▸ hs⟩

/-- A round that is begun at a token may end anywhere. -/
theorem leads_untilEnd {takes : Consumes p} (h : Leads supply 0 p 0) :
    Leads supply 0 (untilEnd p takes) 0 := by
  intro s hs
  induction s using induction_on_takes takes with
  | round s ih =>
    by_cases hend : s.current.kind = .endOfText
    · have hstop : untilEnd p takes s = ⟨.ok [], s, Nat.le_refl _⟩ := untilEnd_of_end hend
      exact ⟨by rwa [hstop], fun _ u hu => ((reads_of_eq_ok hstop).mp hu).2 ▸ hs⟩
    · obtain ⟨hafter, hround⟩ := h s hs
      have hrest : ∀ a t, Reads p s a t → LeadsAt supply t (untilEnd p takes) 0 :=
        fun a t ht => ih a t ht (hround a t ht)
      refine ⟨?_, fun as u hu => ?_⟩
      · rcases reads_or_fails p s with ⟨a, ha⟩ | ⟨e, he⟩
        · rw [after_untilEnd_of_reads hend ha]
          exact (hrest a _ ha).1
        · rwa [after_untilEnd_of_fails hend he]
      · cases as with
        | nil => exact absurd (reads_untilEnd_nil.mp hu).1 hend
        | cons a as =>
          obtain ⟨-, t, ht, hu⟩ := reads_untilEnd_cons.mp hu
          exact (hrest a t ht).2 as u hu

end Laws

/-! ## Expressions -/

section Expressions

variable {inner : Production Expression}

theorem leads_bit : Leads supply 1 bit 1 := by
  refine leads_current_bind fun number => ?_
  split
  · exact leads_pure _
  · split
    · exact leads_pure _
    · exact leads_fail _

/-- An operand is known by its first token, which is not the end token. -/
theorem leads_operandOver (h : Leads supply 0 inner 1) :
    Leads supply 0 (operandOver inner) 1 := by
  intro s hs
  have hcurrent (hne : s.current.kind ≠ .endOfText) : AtLeast supply 1 s := hs.of_current hne
  refine leadsAt_current_bind ?_
  split
  · rename_i hk
    exact leads_pure _ s (hcurrent (by simp [hk]))
  · rename_i hk
    exact leads_bit s (hcurrent (by simp [hk]))
  · rename_i hk
    exact leads_nested (leads_bind leads_advance fun _ => leads_bind h fun _ =>
      leads_bind (leads_expect (by decide)) fun _ => leads_pure _) s (hcurrent (by simp [hk]))
  · rename_i hk
    exact leads_nested (leads_bind leads_advance fun _ => leads_bind h fun _ => leads_pure _) s
      (hcurrent (by simp [hk]))
  · exact leads_bind leads_expectName (fun _ => leads_pure _) s hs
  · exact leads_fail _ s hs

theorem leads_operationOver (h : Leads supply 0 inner 1) :
    Leads supply 1 (operationOver inner) 1 :=
  leads_current_bind fun _ => leads_bind leads_advance fun _ =>
    leads_bind (leads_operandOver h) fun _ => leads_pure _

theorem leads_tailOver (h : Leads supply 0 inner 1) (left : Expression) :
    Leads supply 1 (tailOver inner left) 1 :=
  leads_bind (leads_whileAhead (leads_operationOver h)) fun _ => leads_pure _

theorem leads_expressionOver (h : Leads supply 0 inner 1) :
    Leads supply 0 (expressionOver inner) 1 :=
  leads_bind (leads_operandOver h) fun _ => leads_tailOver h _

theorem leads_expressionWithin (levels : Nat) :
    Leads supply 0 (expressionWithin levels) 1 := by
  induction levels with
  | zero => exact leads_expressionOver leads_tooDeep
  | succ levels ih => exact leads_expressionOver ih

theorem leads_expression : Leads supply 0 expression 1 := fun s hs =>
  leads_expressionWithin s.levels s hs

theorem leads_expressionTail (left : Expression) : Leads supply 1 (expressionTail left) 1 :=
  leads_tailOver leads_expression left

end Expressions

/-! ## Statements -/

section Statements

variable {item : Production α} {inner : Production (List Statement)}

/-- Behind a comma one moves on from it, or stays there. -/
theorem leads_itemAfterComma (h : Leads supply 0 item 1) :
    Leads supply 1 (itemAfterComma item) 1 := by
  refine fun s hs => leadsAt_aheadIs_bind ?_
  split
  · exact leads_pure _ s hs
  · exact leads_bind leads_advance (fun _ => leads_bind h fun _ => leads_pure _) s hs

theorem leads_listWithComma (h : Leads supply 0 item 1) :
    Leads supply 1 (listWithComma item) 1 :=
  leads_ifAhead (by decide) (leads_bind leads_advance fun _ => leads_pure _) <|
    leads_bind leads_advance fun _ => leads_bind h fun _ s hs => leadsAt_aheadIs_bind <|
      leads_bind (leads_whileAhead (leads_itemAfterComma h))
        (fun _ => leads_bind (leads_expect (by decide)) fun _ => leads_pure _) s hs

theorem leads_list (h : Leads supply 0 item 1) : Leads supply 1 (list item) 1 :=
  leads_bind (leads_listWithComma h) fun _ => leads_pure _

theorem leads_registerName : Leads supply 0 registerName 1 := by
  refine fun s hs => leadsAt_current_bind ?_
  split
  · rename_i hk
    exact leads_pure _ s (hs.of_current (by simp [hk]))
  · exact leads_fail _ s hs

theorem leads_parameter : Leads supply 0 parameter 1 := by
  refine fun s hs => leadsAt_current_bind ?_
  split
  · exact leads_bind leads_expectName (fun _ => leads_pure _) s hs
  · rename_i hk
    exact leads_pure _ s (hs.of_current (by simp [hk]))
  · exact leads_fail _ s hs

/-- The unit of a delay is a name that was seen ahead. -/
theorem leads_delay : Leads supply 0 delay 1 := by
  refine leads_current_bind fun number => ?_
  split
  · exact leads_fail _
  · refine fun s hs => leadsAt_ahead_bind ?_
    split
    · exact leads_fail _ s hs
    · rename_i hword
      have hkind : s.ahead.kind = .ident := by simpa using hword
      refine leads_bind leads_advance (fun _ => ?_) s (hs.of_ahead (by simp [hkind]))
      split
      · exact leads_fail _
      · split
        · exact leads_fail _
        · exact leads_pure _

theorem leads_pipeOutputs : Leads supply 1 pipeOutputs 1 :=
  leads_ifAhead (by decide) (leads_bind leads_advance fun _ => leads_list leads_parameter) <|
    leads_bind leads_advance fun _ => leads_bind leads_parameter fun _ => leads_pure _

theorem leads_pipeFrom (inputs : List Expression) : Leads supply j (pipeFrom inputs) 1 :=
  leads_bind (leads_expect (by decide)) fun _ => leads_bind leads_pipeOutputs fun _ =>
    leads_bind (leads_expect (by decide)) fun _ => leads_pure _

theorem leads_pipe : Leads supply 0 pipe 1 :=
  leads_bind leads_expression fun _ => leads_pipeFrom _

theorem leads_groupOrPipe : Leads supply 0 groupOrPipe 1 :=
  leads_bind leads_expectName fun _ => leads_ifAhead (by decide)
    (leads_bind leads_advance fun _ => leads_bind (leads_list leads_parameter) fun _ =>
      leads_bind (leads_expect (by decide)) fun _ => leads_pure _)
    (leads_bind (leads_expressionTail _) fun _ => leads_pipeFrom _)

theorem leads_callOutputs : Leads supply 1 callOutputs 1 :=
  leads_ifAhead (by decide)
    (leads_bind leads_advance fun _ => leads_bind (leads_expect (by decide)) fun _ =>
      leads_list leads_parameter)
    (leads_pure _)

/-- A call is read only where a bracket is ahead. -/
theorem leads_call : Leads supply 2 call 1 :=
  leads_current_bind fun _ => leads_bind leads_advance fun _ =>
    leads_bind (leads_list leads_expression) fun _ => leads_bind leads_callOutputs fun _ =>
    leads_bind (leads_expect (by decide)) fun _ => leads_pure _

theorem leads_pipeFromBracket : Leads supply 1 pipeFromBracket 1 := by
  refine leads_bind (leads_listWithComma leads_expression) fun inputs => ?_
  split
  · refine fun s hs => leadsAt_aheadIs_bind ?_
    split
    · exact leads_bind (leads_expressionTail _) (fun _ => leads_pipeFrom _) s hs
    · exact leads_pipeFrom _ s hs
  · exact leads_pipeFrom _

theorem leads_counter : Leads supply 1 counter 1 :=
  leads_ifAhead (by decide)
    (leads_bind leads_advance fun _ => leads_bind leads_expectName fun _ => leads_pure _)
    (leads_pure _)

theorem leads_clockOver (h : Leads supply 1 inner 1) : Leads supply 0 (clockOver inner) 1 :=
  leads_bind (leads_expect (by decide)) fun _ => leads_bind (leads_delay.mono (Nat.zero_le 1))
    fun _ => leads_bind leads_counter fun _ => leads_bind (leads_expect (by decide)) fun _ =>
    leads_bind (leads_nested h) fun _ => leads_pure _

theorem leads_statementOver (h : Leads supply 1 inner 1) :
    Leads supply 1 (statementOver inner) 1 := by
  refine leads_current_bind fun first => ?_
  split
  · exact leads_groupOrPipe.mono (Nat.zero_le 1)
  · exact (leads_clockOver h).mono (Nat.zero_le 1)
  · exact leads_ifAhead (by decide) leads_call (leads_pipe.mono (Nat.zero_le 1))
  · exact leads_pipe.mono (Nat.zero_le 1)
  · exact leads_pipe.mono (Nat.zero_le 1)
  · exact leads_pipeFromBracket
  · exact leads_fail _

theorem leads_blockOver (h : Leads supply 1 inner 1) : Leads supply 1 (blockOver inner) 1 :=
  leads_bind (leads_whileAhead (leads_statementOver h)) fun _ =>
    leads_bind (leads_expect (by decide)) fun _ => leads_pure _

theorem leads_blockWithin (levels : Nat) : Leads supply 1 (blockWithin levels) 1 := by
  induction levels with
  | zero => exact leads_blockOver leads_tooDeep
  | succ levels ih => exact leads_blockOver ih

theorem leads_block : Leads supply 1 block 1 := fun s hs => leads_blockWithin s.levels s hs

end Statements

/-! ## Programs -/

theorem leads_nameMark : Leads supply 0 nameMark 0 :=
  leads_ifAhead (by decide)
    (leads_bind leads_advance fun _ => (leads_pure _).mono (Nat.zero_le 1))
    (leads_pure _)

theorem leads_inclusion : Leads supply 0 inclusion 1 :=
  leads_bind leads_nameMark fun _ => leads_bind (leads_expect (by decide)) fun _ =>
    leads_current_bind fun _ => leads_bind (leads_expect (by decide)) fun _ => leads_pure _

theorem leads_registers : Leads supply 1 registers 1 :=
  leads_ifAhead (by decide)
    (leads_bind leads_advance fun _ => leads_bind (leads_list leads_registerName) fun _ =>
      leads_bind (leads_expect (by decide)) fun _ => leads_bind (leads_expect (by decide)) fun _ =>
      leads_bind (leads_list leads_registerName) fun _ => leads_pure _)
    (leads_pure _)

theorem leads_circuit : Leads supply 0 circuit 1 :=
  leads_bind leads_expectName fun _ => leads_bind leads_registers fun _ =>
    leads_bind (leads_expect (by decide)) fun _ => leads_bind leads_block fun _ => leads_pure _

/-- The token behind an item may be the end token. -/
theorem leads_item : Leads supply 0 item 0 := by
  refine leads_current_bind fun first => ?_
  split
  · exact leads_bind leads_circuit fun _ => leads_bind leads_advance fun _ => leads_pure _
  · exact leads_bind leads_inclusion fun _ => leads_bind leads_advance fun _ => leads_pure _
  · exact leads_fail _

theorem leads_programName : Leads supply 0 programName 0 := by
  refine leads_current_bind fun first => ?_
  split
  · exact leads_bind (leads_expect (by decide)) fun _ => leads_bind (leads_expect (by decide))
      fun _ => leads_current_bind fun _ => leads_bind (leads_expect (by decide)) fun _ =>
      leads_bind leads_advance fun _ => leads_pure _
  · exact leads_pure _

/-- Reading a program does not pass the end. -/
theorem leads_program : Leads supply 0 program 0 :=
  leads_bind leads_programName fun _ => leads_bind (leads_untilEnd leads_item) fun _ =>
    leads_pure _

end Grammar
end CircuitText
