import CircuitText.Grammar.Built

/-!
# The depth of nesting

A production leaves the depth as it found it, whether it succeeds or fails: only `nested` changes
it, and takes the change back.  So everything inside one level is read at the same depth, the levels
that `expressionWithin` and `blockWithin` count down are the levels that the state has left, and
`expression` and `block` are what one expects of them: an expression is read with `expression`
itself for what is inside its operands, and a block with `block` for the bodies of its clocks.

* `Balanced`, `Built.balanced` --- the depth is left as it was found;
* `AgreeAt` --- two productions do the same in every state of a given depth;
* `expression_eq`, `block_eq` --- the equations of reading expressions and blocks.
-/

namespace CircuitText
namespace Grammar

variable {α β : Type}

/-! ## Leaving the depth as it was -/

/-- The depth is left as it was found. -/
def Balanced (p : Production α) : Prop := ∀ s, (p s).after.depth = s.depth

theorem depth_note (s : State) (f : Fault) : (s.note f).depth = s.depth := rfl

theorem depth_advance (s : State) : s.advance.depth = s.depth := by
  unfold State.advance State.noteIllegal
  dsimp only
  split <;> rfl

theorem balanced_bind {p : Production α} {f : α → Production β} (hp : Balanced p)
    (hf : ∀ a, Balanced (f a)) : Balanced (p >>= f) := by
  intro s
  have hs := hp s
  change (Production.bind p f s).after.depth = _
  unfold Production.bind
  split
  · rename_i a t le h
    rw [h] at hs
    exact (hf a t).trans hs
  · rename_i e t le h
    rw [h] at hs
    exact hs

theorem balanced_expect (k : Kind) : Balanced (expect k) := by
  intro s
  unfold expect
  split
  · exact depth_advance s
  · rfl

theorem balanced_nested {inner : Production α} (h : Balanced inner) : Balanced (nested inner) := by
  intro s
  unfold nested
  split
  · change (inner s.deeper).after.depth - 1 = s.depth
    rw [h s.deeper]
    rfl
  · rfl

theorem balanced_whileAhead {wanted : Kind → Bool} (stops : wanted .endOfText = false)
    {body : Production α} (h : Balanced body) : Balanced (whileAhead wanted stops body) := by
  intro s
  fun_induction whileAhead wanted stops body s with
  | case1 s _ _ e t le hbody =>
    have hs := h s.advance
    rw [hbody] at hs
    exact hs.trans (depth_advance s)
  | case2 s _ _ a t le hbody e u le' hrest ih =>
    have hs := h s.advance
    rw [hbody] at hs
    rw [hrest] at ih
    exact ih.trans (hs.trans (depth_advance s))
  | case3 s _ _ a t le hbody as u le' hrest ih =>
    have hs := h s.advance
    rw [hbody] at hs
    rw [hrest] at ih
    exact ih.trans (hs.trans (depth_advance s))
  | case4 => rfl

theorem balanced_untilEnd {p : Production α} (takes : Consumes p) (h : Balanced p) :
    Balanced (untilEnd p takes) := by
  intro s
  fun_induction untilEnd p takes s with
  | case1 => rfl
  | case2 s _ e t le hp =>
    have hs := h s
    rw [hp] at hs
    exact hs
  | case3 s _ a t le hp _ e u le' hrest ih =>
    have hs := h s
    rw [hp] at hs
    rw [hrest] at ih
    exact ih.trans hs
  | case4 s _ a t le hp _ as u le' hrest ih =>
    have hs := h s
    rw [hp] at hs
    rw [hrest] at ih
    exact ih.trans hs

/-- Every production leaves the depth as it found it. -/
theorem Built.balanced {p : Production α} (h : Built p) : Balanced p := by
  induction h with
  | pure | current | ahead | aheadIs | fail | tooDeep => exact fun _ => rfl
  | advance => exact depth_advance
  | expect k => exact balanced_expect k
  | bind _ _ ih ih' => exact balanced_bind ih ih'
  | nested _ ih => exact balanced_nested ih
  | whileAhead stops _ ih => exact balanced_whileAhead stops ih
  | untilEnd takes _ ih => exact balanced_untilEnd takes ih
  | levels _ ih => exact fun s => ih s.levels s

/-! ## Doing the same at one depth -/

/-- Two productions do the same in every state of depth `d`. -/
def AgreeAt (d : Nat) (p q : Production α) : Prop := ∀ s, s.depth = d → p s = q s

theorem AgreeAt.refl (d : Nat) (p : Production α) : AgreeAt d p p := fun _ _ => rfl

theorem AgreeAt.bind {d : Nat} {p q : Production α} {f g : α → Production β} (hpq : AgreeAt d p q)
    (hp : Built p) (hfg : ∀ a, AgreeAt d (f a) (g a)) : AgreeAt d (p >>= f) (q >>= g) := by
  intro s hd
  have hs := hp.balanced s
  change Production.bind p f s = Production.bind q g s
  unfold Production.bind
  rw [← hpq s hd]
  split
  · rename_i a t le h
    rw [h] at hs
    rw [hfg a t (hs.trans hd)]
  · rfl

/-- What follows may be anything if it is the same. -/
theorem AgreeAt.bind_same {d : Nat} {p q : Production α} (hpq : AgreeAt d p q)
    (f : α → Production β) : AgreeAt d (p >>= f) (q >>= f) := by
  intro s hd
  change Production.bind p f s = Production.bind q f s
  unfold Production.bind
  rw [hpq s hd]

theorem AgreeAt.nested {d : Nat} {p q : Production α}
    (h : d < nestingLimit → AgreeAt (d + 1) p q) : AgreeAt d (nested p) (nested q) := by
  intro s hd
  unfold Grammar.nested
  split
  · rename_i hlt
    rw [h (hd ▸ hlt) s.deeper (congrArg (· + 1) hd)]
  · rfl

theorem AgreeAt.whileAhead {d : Nat} {wanted : Kind → Bool} (stops : wanted .endOfText = false)
    {p q : Production α} (hpq : AgreeAt d p q) (hp : Built p) :
    AgreeAt d (whileAhead wanted stops p) (whileAhead wanted stops q) := by
  intro s
  fun_induction Grammar.whileAhead wanted stops p s with
  | case1 s hw _ e t le hbody =>
    intro hd
    have hq := hpq s.advance ((depth_advance s).trans hd)
    rw [Grammar.whileAhead, dif_pos hw, ← hq, hbody]
  | case2 s hw _ a t le hbody e u le' hrest ih =>
    intro hd
    have hs := hp.balanced s.advance
    rw [hbody] at hs
    have hadv := (depth_advance s).trans hd
    have hq := hpq s.advance hadv
    rw [Grammar.whileAhead, dif_pos hw, ← hq, hbody]
    simp only
    rw [← ih (hs.trans hadv), hrest]
  | case3 s hw _ a t le hbody as u le' hrest ih =>
    intro hd
    have hs := hp.balanced s.advance
    rw [hbody] at hs
    have hadv := (depth_advance s).trans hd
    have hq := hpq s.advance hadv
    rw [Grammar.whileAhead, dif_pos hw, ← hq, hbody]
    simp only
    rw [← ih (hs.trans hadv), hrest]
  | case4 s hw =>
    intro _
    rw [Grammar.whileAhead, dif_neg hw]

/-! ## Expressions -/

theorem AgreeAt.operandOver {d : Nat} {p q : Production Expression}
    (h : d < nestingLimit → AgreeAt (d + 1) p q) (hp : Built p) :
    AgreeAt d (operandOver p) (operandOver q) := by
  refine AgreeAt.bind (.refl d _) .current fun first => ?_
  split
  · exact .refl d _
  · exact .refl d _
  · exact .nested fun hd => .bind (.refl _ _) .advance fun _ =>
      .bind (h hd) hp fun _ => .refl _ _
  · exact .nested fun hd => .bind (.refl _ _) .advance fun _ =>
      .bind (h hd) hp fun _ => .refl _ _
  · exact .refl d _
  · exact .refl d _

theorem AgreeAt.tailOver {d : Nat} {p q : Production Expression}
    (h : d < nestingLimit → AgreeAt (d + 1) p q) (hp : Built p) (left : Expression) :
    AgreeAt d (tailOver p left) (tailOver q left) :=
  .bind (.whileAhead rfl (.bind (.refl _ _) .current fun _ =>
    .bind (.refl _ _) .advance fun _ =>
      .bind (AgreeAt.operandOver h hp) (built_operandOver hp) fun _ => .refl _ _)
    (built_operationOver hp))
    (.whileAhead rfl (built_operationOver hp)) fun _ => .refl _ _

theorem AgreeAt.expressionOver {d : Nat} {p q : Production Expression}
    (h : d < nestingLimit → AgreeAt (d + 1) p q) (hp : Built p) :
    AgreeAt d (expressionOver p) (expressionOver q) :=
  .bind (AgreeAt.operandOver h hp) (built_operandOver hp) fun _ => AgreeAt.tailOver h hp _

/-- What is inside the operands of an expression is read as an expression. -/
theorem expression_eq : expression = expressionOver expression := by
  funext s
  unfold expression
  rcases h : s.levels with _ | levels
  · refine AgreeAt.expressionOver (fun hlt => ?_) .tooDeep s rfl
    simp only [State.levels] at h
    omega
  · refine AgreeAt.expressionOver (fun hlt t ht => ?_) (built_expressionWithin levels) s rfl
    have hlevels : t.levels = levels := by
      simp only [State.levels] at h ⊢
      omega
    rw [hlevels]

/-! ## Statements -/

theorem AgreeAt.statementOver {d : Nat} {p q : Production (List Statement)}
    (h : d < nestingLimit → AgreeAt (d + 1) p q) :
    AgreeAt d (statementOver p) (statementOver q) := by
  refine AgreeAt.bind (.refl d _) .current fun first => ?_
  split
  · exact .refl d _
  · exact .bind (.refl _ _) (.expect _) fun _ => .bind (.refl _ _) built_delay fun _ =>
      .bind (.refl _ _) built_counter fun _ => .bind (.refl _ _) (.expect _) fun _ =>
      AgreeAt.bind_same (.nested h) _
  · exact .refl d _
  · exact .refl d _
  · exact .refl d _
  · exact .refl d _
  · exact .refl d _

theorem AgreeAt.blockOver {d : Nat} {p q : Production (List Statement)}
    (h : d < nestingLimit → AgreeAt (d + 1) p q) (hp : Built p) :
    AgreeAt d (blockOver p) (blockOver q) :=
  .bind (.whileAhead rfl (AgreeAt.statementOver h) (built_statementOver hp))
    (.whileAhead rfl (built_statementOver hp)) fun _ => .refl _ _

/-- The bodies of the clocks in a block are read as blocks. -/
theorem block_eq : block = blockOver block := by
  funext s
  unfold block
  rcases h : s.levels with _ | levels
  · refine AgreeAt.blockOver (fun hlt => ?_) .tooDeep s rfl
    simp only [State.levels] at h
    omega
  · refine AgreeAt.blockOver (fun hlt t ht => ?_) (built_blockWithin levels) s rfl
    have hlevels : t.levels = levels := by
      simp only [State.levels] at h ⊢
      omega
    rw [hlevels]

end Grammar
end CircuitText
