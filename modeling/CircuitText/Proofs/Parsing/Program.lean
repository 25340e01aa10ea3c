import CircuitText.Proofs.Lexing.Drain
import CircuitText.Proofs.Parsing.Statement

/-!
# Reading programs is deriving them

A text is a program just when its words are one of the grammar, and then it says one thing only.
Reading gives back no program once a fault was noted, so a second thing has to be seen: what is
noted before the end is an illegal word that has come in sight, and no phrase of the grammar has
one.

* `reads_item`, `reads_items`, `reads_program` --- items and programs;
* `State.unread`, `passes_unread` --- the words that lead to the end;
* `faults_of_passes` --- moving on over legal words notes nothing;
* `parse_start_eq_ok_iff`, `Program.parse_eq_ok_iff` --- supplies of tokens, and texts.
-/

namespace CircuitText
namespace Grammar

variable {s t u : State} {n : Nat}

/-! ## Circuits and references -/

/-- Registers of a circuit that its body follows. -/
theorem reads_registers {r : List String × List String} (hend : t.ahead.kind = .leftBrace) :
    Reads registers s r t ↔ Spans IsRegisters s r t := by
  simp only [registers, reads_aheadIs_bind, reads_ite, beq_iff_eq, reads_advance_bind, reads_pure]
  constructor
  · rintro (⟨hopen, h⟩ | ⟨-, rfl, rfl⟩)
    · obtain ⟨inputs, u, hin, h⟩ := reads_bind.mp h
      simp only [reads_expect_bind] at h
      obtain ⟨ha, hopen', h⟩ := h
      obtain ⟨outputs, v, hout, h⟩ := reads_bind.mp h
      obtain ⟨rfl, rfl⟩ := reads_pure.mp h
      obtain ⟨ws, left, hin⟩ := (reads_list_advance (readsItem_registerName _) hopen).mp hin
      obtain ⟨vs, right, hout⟩ := (reads_list_advance (readsItem_registerName _) hopen').mp hout
      refine ⟨_, .listed (a := u.ahead.literal) left right, passes_append.mpr ⟨u, hin, ?_⟩⟩
      exact (passes_word (by simp)).mpr ⟨ha, rfl, hout⟩
    · exact ⟨[], .none, rfl⟩
  · rintro ⟨ws, hX, hpass⟩
    cases hX with
    | none =>
      obtain rfl := passes_nil.mp hpass
      exact .inr ⟨by simp [hend], rfl, rfl⟩
    | listed left right =>
      obtain ⟨u, hin, hpass⟩ := passes_append.mp hpass
      obtain ⟨ha, rfl, hout⟩ := (passes_word (by simp)).mp hpass
      have hin : Spans (Bracketed (Items IsRegister)) s _ u := ⟨_, left, hin⟩
      have hout : Spans (Bracketed (Items IsRegister)) u.advance _ t := ⟨_, right, hout⟩
      have hopen := (spans_bracketed.mp hin).1
      have hopen' := (spans_bracketed.mp hout).1
      refine .inl ⟨hopen, reads_bind.mpr
        ⟨_, u, (reads_list_advance (readsItem_registerName _) hopen).mpr hin, ?_⟩⟩
      simp only [reads_expect_bind]
      refine ⟨ha, hopen', reads_bind.mpr ⟨_, t, ?_, reads_pure.mpr ⟨rfl, rfl⟩⟩⟩
      exact (reads_list_advance (readsItem_registerName _) hopen').mpr hout

theorem spans_circuit {c : Circuit} :
    Spans (IsItem n) s (.circuit c) t ↔
      s.ahead.kind = .circuit ∧ s.advance.ahead.kind = .ident ∧ s.advance.ahead.literal = c.name ∧
        ∃ u v, Spans IsRegisters s.advance.advance (c.inputs, c.outputs) u ∧
          u.ahead.kind = .leftBrace ∧ Spans (IsBlock n) u.advance c.body v ∧
          v.ahead.kind = .rightBrace ∧ t = v.advance := by
  constructor
  · rintro ⟨ws, hX, hpass⟩
    cases hX with
    | circuit registers block =>
      simp only [ne_eq, reduceCtorEq, not_false_eq_true, passes_word, passes_append,
        passes_nil] at hpass
      obtain ⟨hk, -, hi, hx, u, hregisters, hopen, -, v, hblock, hclose, -, rfl⟩ := hpass
      exact ⟨hk, hi, hx, u, v, ⟨_, registers, hregisters⟩, hopen, ⟨_, block, hblock⟩, hclose, rfl⟩
  · rintro ⟨hk, hi, hx, u, v, ⟨ws, registers, hregisters⟩, hopen, ⟨vs, block, hblock⟩, hclose,
      rfl⟩
    refine ⟨_, .circuit (c := s.ahead.literal) (l := u.ahead.literal) (r := v.ahead.literal)
      registers block, ?_⟩
    simp only [ne_eq, reduceCtorEq, not_false_eq_true, passes_word, passes_append, passes_nil,
      true_and]
    exact ⟨hk, hi, hx, u, hregisters, hopen, rfl, v, hblock, hclose, rfl, rfl⟩

theorem reads_circuit {c : Circuit} (hk : s.ahead.kind = .circuit) :
    Reads circuit s.advance c t ↔ Spans (IsItem s.levels) s (.circuit c) t := by
  rw [circuit, reads_expectName_bind, spans_circuit, current_advance, and_iff_right hk]
  constructor
  · rintro ⟨hi, h⟩
    obtain ⟨⟨inputs, outputs⟩, u, hr, h⟩ := reads_bind.mp h
    simp only [reads_expect_bind] at h
    obtain ⟨hopen, h⟩ := h
    obtain ⟨b, v, hb, h⟩ := reads_bind.mp h
    obtain ⟨rfl, rfl⟩ := reads_pure.mp h
    have hr := (reads_registers hopen).mp hr
    obtain ⟨w, hbody, hclose, rfl⟩ := reads_block.mp hb
    have hlevels : u.advance.levels = s.levels := by simp [hr.levels]
    rw [hlevels] at hbody
    exact ⟨hi, rfl, u, w, hr, hopen, hbody, hclose, rfl⟩
  · obtain ⟨x, inputs, outputs, b⟩ := c
    rintro ⟨hi, rfl, u, v, hr, hopen, hb, hclose, rfl⟩
    have hlevels : u.advance.levels = s.levels := by simp [hr.levels]
    refine ⟨hi, reads_bind.mpr ⟨_, u, (reads_registers hopen).mpr hr, ?_⟩⟩
    simp only [reads_expect_bind]
    refine ⟨hopen, reads_bind.mpr ⟨b, v.advance, reads_block.mpr ⟨v, ?_, hclose, rfl⟩, ?_⟩⟩
    · rw [hlevels]
      exact hb
    · exact reads_pure.mpr ⟨rfl, rfl⟩

theorem reads_nameMark {b : Bool} :
    Reads nameMark s b t ↔ s.ahead.kind = .name ∧ b = true ∧ t = s.advance ∨
      s.ahead.kind ≠ .name ∧ b = false ∧ t = s := by
  simp [nameMark]

theorem reads_inclusion {i : Inclusion} (hk : s.ahead.kind = .inclusion) :
    Reads inclusion s.advance i t ↔ Spans (IsItem n) s (.inclusion i) t := by
  rw [inclusion, reads_bind]
  simp only [reads_nameMark, reads_expect_bind, reads_current_bind, reads_pure, current_advance]
  constructor
  · rintro ⟨b, u, ⟨hn, rfl, rfl⟩ | ⟨-, rfl, rfl⟩, hstring, hend, rfl, rfl⟩
    · refine ⟨_, .byName (i := s.ahead.literal) (n := s.advance.ahead.literal)
        (s := s.advance.advance.advance.ahead.literal), ?_⟩
      simp [hk, hn, hstring, hend]
    · refine ⟨_, .byPath (i := s.ahead.literal) (s := s.advance.advance.ahead.literal), ?_⟩
      simp [hk, hstring, hend]
  · rintro ⟨ws, hX, hpass⟩
    cases hX with
    | byPath =>
      simp only [ne_eq, reduceCtorEq, not_false_eq_true, passes_word, passes_nil] at hpass
      obtain ⟨-, -, hstring, rfl, hend, -, rfl⟩ := hpass
      exact ⟨false, _, .inr ⟨by simp [hstring], rfl, rfl⟩, hstring, hend, rfl, rfl⟩
    | byName =>
      simp only [ne_eq, reduceCtorEq, not_false_eq_true, passes_word, passes_nil] at hpass
      obtain ⟨-, -, hn, -, hstring, rfl, hend, -, rfl⟩ := hpass
      exact ⟨true, _, .inl ⟨hn, rfl, rfl⟩, hstring, hend, rfl, rfl⟩

/-! ## Programs -/

theorem ahead_of_spans_item {i : Item} (h : Spans (IsItem n) s i t) :
    s.ahead.kind = .circuit ∨ s.ahead.kind = .inclusion := by
  obtain ⟨ws, hX, hpass⟩ := h
  cases hX with
  | circuit => exact .inl ((passes_word (by simp)).mp hpass).1
  | byPath => exact .inr ((passes_word (by simp)).mp hpass).1
  | byName => exact .inr ((passes_word (by simp)).mp hpass).1

/-- An item is read, and then the word behind it is taken. -/
theorem reads_item {i : Item} :
    Reads item s.advance i u ↔ ∃ t, Spans (IsItem s.levels) s i t ∧ u = t.advance := by
  simp only [item, reads_current_bind, current_advance]
  constructor
  · intro h
    split at h
    · rename_i hk
      obtain ⟨c, t, hc, h⟩ := reads_bind.mp h
      simp only [reads_advance_bind, reads_pure] at h
      obtain ⟨rfl, rfl⟩ := h
      exact ⟨t, (reads_circuit hk).mp hc, rfl⟩
    · rename_i hk
      obtain ⟨i, t, hi, h⟩ := reads_bind.mp h
      simp only [reads_advance_bind, reads_pure] at h
      obtain ⟨rfl, rfl⟩ := h
      exact ⟨t, (reads_inclusion hk).mp hi, rfl⟩
    · exact absurd h not_reads_fail
  · rintro ⟨t, h, rfl⟩
    cases i with
    | circuit c =>
      have hk := (spans_circuit.mp h).1
      rw [hk]
      exact reads_bind.mpr ⟨c, t, (reads_circuit hk).mpr h, by simp⟩
    | inclusion i =>
      have hk : s.ahead.kind = .inclusion := by
        obtain ⟨ws, hX, hpass⟩ := h
        cases hX with
        | byPath => exact ((passes_word (by simp)).mp hpass).1
        | byName => exact ((passes_word (by simp)).mp hpass).1
      rw [hk]
      exact reads_bind.mpr ⟨i, t, (reads_inclusion hk).mpr h, by simp⟩

/-- The items of a program, up to the end of the text. -/
theorem reads_items {is : List Item} :
    Reads (untilEnd item consumes_item) s.advance is u ↔
      ∃ t, Spans (Many (IsItem s.levels)) s is t ∧ t.ahead.kind = .endOfText ∧ u = t.advance := by
  induction is generalizing s with
  | nil =>
    rw [reads_untilEnd_nil, current_advance]
    constructor
    · rintro ⟨hend, rfl⟩
      exact ⟨s, spans_many_nil.mpr rfl, hend, rfl⟩
    · rintro ⟨t, ht, hend, rfl⟩
      rw [spans_many_nil] at ht
      subst ht
      exact ⟨hend, rfl⟩
  | cons i is ih =>
    rw [reads_untilEnd_cons, current_advance]
    constructor
    · rintro ⟨-, v, hi, hmore⟩
      obtain ⟨w, hspan, rfl⟩ := reads_item.mp hi
      obtain ⟨t, hrest, hend, rfl⟩ := ih.mp hmore
      rw [hspan.levels] at hrest
      exact ⟨t, spans_many_cons.mpr ⟨w, hspan, hrest⟩, hend, rfl⟩
    · rintro ⟨t, hspan, hend, rfl⟩
      obtain ⟨w, hspan, hmore⟩ := spans_many_cons.mp hspan
      refine ⟨?_, w.advance, reads_item.mpr ⟨w, hspan, rfl⟩, ih.mpr ⟨t, ?_, hend, rfl⟩⟩
      · rcases ahead_of_spans_item hspan with hk | hk <;> simp [hk]
      · rwa [hspan.levels]

/-- The name of a program is read, and the word behind it is taken. -/
theorem spans_of_reads_programName {x : String} (h : Reads programName s.advance x u) :
    ∃ t, Spans IsProgramName s x t ∧ u = t.advance := by
  simp only [programName, reads_current_bind, current_advance, reads_ite, reads_expect_bind,
    reads_advance_bind, reads_pure] at h
  rcases h with ⟨hk, hc, hv, hs, rfl, rfl⟩ | ⟨-, rfl, rfl⟩
  · refine ⟨_, ⟨_, .named (n := s.ahead.literal) (c := s.advance.ahead.literal)
      (s := s.advance.advance.advance.ahead.literal), ?_⟩, rfl⟩
    simp [hk, hc, hv, hs]
  · exact ⟨s, ⟨[], .none, rfl⟩, rfl⟩

/-- Without a name there must be no other use of its keyword ahead. -/
theorem reads_programName_of_spans {x : String} (h : Spans IsProgramName s x t)
    (hne : t.ahead.kind ≠ .name) : Reads programName s.advance x t.advance := by
  simp only [programName, reads_current_bind, current_advance, reads_ite, reads_expect_bind,
    reads_advance_bind, reads_pure]
  obtain ⟨ws, hX, hpass⟩ := h
  cases hX with
  | none =>
    obtain rfl := passes_nil.mp hpass
    exact .inr ⟨hne, rfl, rfl⟩
  | named =>
    simp only [ne_eq, reduceCtorEq, not_false_eq_true, passes_word, passes_nil] at hpass
    obtain ⟨hk, -, hc, -, hv, rfl, hs, -, rfl⟩ := hpass
    exact .inl ⟨hk, hc, hv, hs, rfl, rfl⟩

theorem ahead_ne_name_of_spans_items {is : List Item} (h : Spans (Many (IsItem n)) s is t)
    (hend : t.ahead.kind = .endOfText) : s.ahead.kind ≠ .name := by
  cases is with
  | nil =>
    rw [spans_many_nil] at h
    simp [← h, hend]
  | cons i is =>
    obtain ⟨w, hi, -⟩ := spans_many_cons.mp h
    rcases ahead_of_spans_item hi with hk | hk <;> simp [hk]

/-- A program is read exactly where there is one that the end of the text follows. -/
theorem reads_program {p : Program} :
    Reads program s.advance p u ↔
      ∃ t, Spans (IsProgram s.levels) s p t ∧ t.ahead.kind = .endOfText ∧ u = t.advance := by
  rw [program, reads_bind]
  constructor
  · rintro ⟨x, v, hx, h⟩
    obtain ⟨is, w, his, h⟩ := reads_bind.mp h
    obtain ⟨rfl, rfl⟩ := reads_pure.mp h
    obtain ⟨r, hname, rfl⟩ := spans_of_reads_programName hx
    obtain ⟨t, hitems, hend, rfl⟩ := reads_items.mp his
    rw [hname.levels] at hitems
    obtain ⟨ws, named, hws⟩ := hname
    obtain ⟨vs, content, hvs⟩ := hitems
    exact ⟨t, ⟨_, .mk named content, passes_append.mpr ⟨r, hws, hvs⟩⟩, hend, rfl⟩
  · rintro ⟨t, ⟨_, ⟨named, content⟩, hpass⟩, hend, rfl⟩
    obtain ⟨r, hws, hvs⟩ := passes_append.mp hpass
    have hitems : Spans (Many (IsItem s.levels)) r _ t := ⟨_, content, hvs⟩
    refine ⟨_, r.advance, reads_programName_of_spans ⟨_, named, hws⟩ ?_, ?_⟩
    · exact ahead_ne_name_of_spans_items hitems hend
    · refine reads_bind.mpr ⟨_, t.advance, reads_items.mpr ⟨t, ?_, hend, rfl⟩,
        reads_pure.mpr ⟨rfl, rfl⟩⟩
      rw [hws.levels]
      exact hitems

/-! ## The words up to the end -/

namespace State

/-- No end token is left in the supply, and nothing at all once the end is in sight. -/
def Regular (s : State) : Prop :=
  (∀ k ∈ s.supply.upcoming, k.kind ≠ .endOfText) ∧
    (s.ahead.kind = .endOfText → s.supply.upcoming = [])

/-- The words that are still to be read, the end token aside. -/
def unread (s : State) : List Word :=
  ((s.ahead :: s.supply.upcoming).takeWhile (·.kind ≠ .endOfText)).map (·.word)

theorem ahead_advance (s : State) : s.advance.ahead = s.supply.next.1 := by
  unfold advance noteIllegal
  dsimp only
  split <;> rfl

theorem supply_advance (s : State) : s.advance.supply = s.supply.next.2 := by
  unfold advance noteIllegal
  dsimp only
  split <;> rfl

theorem Regular.advance (h : s.Regular) : s.advance.Regular := by
  rw [Regular, ahead_advance, supply_advance]
  cases hs : s.supply.upcoming with
  | nil => simp [Supply.next_of_nil hs, hs]
  | cons k ks =>
    have hk := h.1
    rw [hs] at hk
    obtain ⟨hk, hks⟩ := List.forall_mem_cons.mp hk
    rw [Supply.next_of_cons hs]
    exact ⟨hks, fun heq => absurd heq hk⟩

theorem unread_of_end (h : s.ahead.kind = .endOfText) : s.unread = [] := by
  simp [unread, h]

theorem unread_of_ne_end (h : s.ahead.kind ≠ .endOfText) :
    s.unread = s.ahead.word :: s.advance.unread := by
  rw [unread, unread, ahead_advance, supply_advance]
  cases hs : s.supply.upcoming with
  | nil => simp [h, Supply.next_of_nil hs, hs, Token.endOfText]
  | cons k ks => simp [h, Supply.next_of_cons hs]

end State

/-- The words that are left are the only ones that lead to the end. -/
theorem passes_unread {ws : List Word} :
    (∃ t, Passes s ws t ∧ t.ahead.kind = .endOfText) ↔ ws = s.unread := by
  induction ws generalizing s with
  | nil =>
    simp only [passes_nil, exists_eq_left]
    by_cases hend : s.ahead.kind = .endOfText
    · simp [hend, State.unread_of_end hend]
    · simp [hend, State.unread_of_ne_end hend]
  | cons w ws ih =>
    simp only [passes_cons, and_assoc, exists_and_left, ih]
    by_cases hend : s.ahead.kind = .endOfText
    · simp [hend, State.unread_of_end hend]
    · rw [State.unread_of_ne_end hend, List.cons.injEq]
      simp only [ne_eq, hend, not_false_eq_true, true_and]
      rw [eq_comm (a := s.ahead.word)]

/-! ## Faults -/

/-- A legal word that comes in sight is not noted. -/
theorem faults_advance (h : s.advance.ahead.kind ≠ .illegal) : s.advance.faults = s.faults := by
  rw [State.ahead_advance] at h
  unfold State.advance State.noteIllegal
  simp [h]

theorem ahead_legal_of_passes {ws : List Word} (h : Passes s ws t)
    (hws : ∀ w ∈ ws, w.kind ≠ .illegal) (hend : t.ahead.kind = .endOfText) :
    s.ahead.kind ≠ .illegal := by
  cases ws with
  | nil =>
    obtain rfl := passes_nil.mp h
    simp [hend]
  | cons w ws =>
    obtain ⟨-, rfl, -⟩ := passes_cons.mp h
    exact hws _ (List.mem_cons_self ..)

/-- Moving on over legal words up to the end notes nothing. -/
theorem faults_of_passes {ws : List Word} (h : Passes s ws t)
    (hws : ∀ w ∈ ws, w.kind ≠ .illegal) (hend : t.ahead.kind = .endOfText) :
    t.faults = s.faults := by
  induction ws generalizing s with
  | nil => rw [passes_nil.mp h]
  | cons w ws ih =>
    obtain ⟨-, -, hpass⟩ := passes_cons.mp h
    have hlegal : ∀ w ∈ ws, w.kind ≠ .illegal := fun v hv => hws v (List.mem_cons_of_mem _ hv)
    rw [ih hpass hlegal, faults_advance (ahead_legal_of_passes hpass hlegal hend)]

theorem State.Regular.of_passes {ws : List Word} (hs : s.Regular) (h : Passes s ws t) :
    t.Regular := by
  induction ws generalizing s with
  | nil => rwa [passes_nil.mp h]
  | cons w ws ih => exact ih hs.advance (passes_cons.mp h).2.2

/-! ## Texts -/

namespace State

/-- The state in which the first token of a supply is still ahead. -/
def beforeFirst (supply : Supply) : State :=
  noteIllegal ⟨.endOfText supply.next.1.span.first, supply.next.1, supply.next.2, [], 0⟩

theorem start_eq (supply : Supply) : start supply = (beforeFirst supply).advance := rfl

theorem ahead_beforeFirst (supply : Supply) : (beforeFirst supply).ahead = supply.next.1 := by
  unfold beforeFirst noteIllegal
  split <;> rfl

theorem supply_beforeFirst (supply : Supply) : (beforeFirst supply).supply = supply.next.2 := by
  unfold beforeFirst noteIllegal
  split <;> rfl

theorem levels_beforeFirst (supply : Supply) : (beforeFirst supply).levels = nestingLimit := by
  unfold beforeFirst noteIllegal levels
  split <;> rfl

theorem faults_beforeFirst {supply : Supply} (h : (beforeFirst supply).ahead.kind ≠ .illegal) :
    (beforeFirst supply).faults = [] := by
  rw [ahead_beforeFirst] at h
  unfold beforeFirst noteIllegal
  simp [h]

variable {supply : Supply}

theorem regular_beforeFirst (h : ∀ k ∈ supply.upcoming, k.kind ≠ .endOfText) :
    (beforeFirst supply).Regular := by
  rw [Regular, ahead_beforeFirst, supply_beforeFirst]
  cases hs : supply.upcoming with
  | nil => simp [Supply.next_of_nil hs, hs]
  | cons k ks =>
    rw [hs] at h
    obtain ⟨hk, hks⟩ := List.forall_mem_cons.mp h
    rw [Supply.next_of_cons hs]
    exact ⟨hks, fun heq => absurd heq hk⟩

theorem unread_beforeFirst (h : ∀ k ∈ supply.upcoming, k.kind ≠ .endOfText) :
    (beforeFirst supply).unread = supply.upcoming.map (·.word) := by
  rw [unread, ahead_beforeFirst, supply_beforeFirst]
  cases hs : supply.upcoming with
  | nil => simp [Supply.next_of_nil hs, hs, Token.endOfText]
  | cons k ks =>
    rw [hs] at h
    rw [Supply.next_of_cons hs, ← List.append_nil (k :: ks),
      Text.takeWhile_run (by simpa using h) Text.stops_nil, List.append_nil]

end State

/-- A supply is a program just when its words are one. -/
theorem parse_start_eq_ok_iff {supply : Supply} {p : Program}
    (h : ∀ k ∈ supply.upcoming, k.kind ≠ .endOfText) :
    (State.start supply).parse.1 = .ok p ↔
      IsProgram nestingLimit (supply.upcoming.map (·.word)) p := by
  have hparse : (State.start supply).parse.1 = .ok p ↔
      ∃ u, Reads program (State.start supply) p u ∧ u.faults = [] := by
    unfold State.parse Reads
    dsimp only
    split
    · rename_i hf
      constructor
      · exact fun hok => ⟨_, ⟨hok, rfl⟩, hf⟩
      · rintro ⟨u, ⟨hok, -⟩, -⟩
        exact hok
    · rename_i f fs hf
      simp [hf]
  rw [hparse, State.start_eq, ← State.unread_beforeFirst h]
  simp only [reads_program, State.levels_beforeFirst]
  constructor
  · rintro ⟨u, ⟨t, ⟨ws, hX, hpass⟩, hend, -⟩, -⟩
    rwa [← passes_unread.mp ⟨t, hpass, hend⟩]
  · intro hX
    obtain ⟨t, hpass, hend⟩ := passes_unread.mpr rfl
    refine ⟨t.advance, ⟨t, ⟨_, hX, hpass⟩, hend, rfl⟩, ?_⟩
    have hlegal := legal_isProgram _ _ _ hX
    have hnothing : t.supply.upcoming = [] :=
      ((State.regular_beforeFirst h).of_passes hpass).2 hend
    rw [faults_advance, faults_of_passes hpass hlegal hend,
      State.faults_beforeFirst (ahead_legal_of_passes hpass hlegal hend)]
    rw [State.ahead_advance, Supply.next_of_nil hnothing]
    simp [Token.endOfText]

end Grammar

namespace Program

/-- A text is a program just when its words are one. -/
theorem parse_eq_ok_iff {text : List Char} {file : String} {p : Program} :
    parse text file = .ok p ↔ Grammar.IsProgram nestingLimit (Lexer.words text file) p :=
  Grammar.parse_start_eq_ok_iff (Lexer.kind_ne_endOfText_of_mem_drain rfl)

end Program
end CircuitText
