import CircuitText.Proofs.Faults.Program
import CircuitText.Proofs.Faults.Record

/-!
# The list of faults over many readings

Reading can be asked for again and again, and each time it goes on where it stopped.  The list of
faults that is kept meanwhile obeys a discipline, whatever the text and wherever reading begins in
it: nothing that was noted is ever changed, each illegal token is noted once and when it is taken,
and each reading that fails notes one fault of another sort, as its last.  The first fault of all is
the answer from then on.

The first reading is special, because it begins with a program and not amidst the remains of one.
Behind words with which a program can go on only two tokens may have been taken when it fails, and
so there are at most two illegal ones.

* `State.afterParses` --- the state after so many readings;
* `Adds.parse`, `Recorded` --- what one reading does, and what holds between readings;
* `parse_of_end` --- readings after the end;
* `Discipline`, `discipline` --- the whole.
-/

namespace CircuitText

namespace Lexer

/-- Asking for tokens one by one, a lexer never comes to its end for good. -/
theorem ended_after (l : Lexer) (n : Nat) : (l.after n).ended = l.ended := by
  induction n generalizing l with
  | zero => rfl
  | succ n ih =>
    rw [after, ih]
    unfold nextToken
    dsimp only
    split <;> rfl

end Lexer

namespace Grammar

variable {s t : State} {tokens : List Token} {ws : List Word} {f : Fault}

namespace State

/-- The state after so many readings. -/
def afterParses (s : State) : Nat → State
  | 0 => s
  | n + 1 => (s.afterParses n).parse.2

theorem afterParses_succ (s : State) (n : Nat) :
    s.afterParses (n + 1) = (s.afterParses n).parse.2 := rfl

end State

/-! ## One reading -/

theorem parse_snd (s : State) : s.parse.2 = (program s).after := by
  unfold State.parse
  dsimp only
  split <;> rfl

/-- The first fault that was ever noted is the answer. -/
theorem parse_of_head? (h : s.parse.2.faults.head? = some f) : s.parse.1 = .error f := by
  rw [parse_snd] at h
  unfold State.parse
  dsimp only
  split
  · rename_i hnil
    simp [hnil] at h
  · rename_i g gs hcons
    simp_all

/-- A reading notes the illegal tokens that it takes, and at most one fault of another sort. -/
theorem adds_parse (s : State) :
    ∃ blame, Adds s blame s.parse.2 ∧ (∀ f ∈ blame, f.cause.category ≠ .lexical) ∧
      blame.length ≤ 1 ∧ (blame = [] → ∃ p, (program s).result = .ok p) := by
  rw [parse_snd]
  rcases adds_program s with ⟨hp, h⟩ | ⟨f, -, hf, h⟩
  · exact ⟨[], h, by simp, by simp, fun _ => hp⟩
  · exact ⟨[f], h, by simpa using hf, by simp, by simp⟩

/-- Where no fault was ever noted there is a program. -/
theorem exists_parse_of_nil (h : s.parse.2.faults = []) : ∃ p, s.parse.1 = .ok p := by
  obtain ⟨blame, ⟨n, -, hfaults⟩, -, -, hresult⟩ := adds_parse s
  rw [hfaults] at h
  obtain ⟨p, hp⟩ := hresult (List.append_eq_nil_iff.mp h).2
  rw [← hfaults, parse_snd] at h
  refine ⟨p, ?_⟩
  unfold State.parse
  simp [h, hp]

theorem faults_prefix_parse (s : State) : s.faults <+: s.parse.2.faults := by
  obtain ⟨blame, ⟨n, -, hfaults⟩, -⟩ := adds_parse s
  rw [hfaults, List.append_assoc]
  exact List.prefix_append ..

/-- Only an empty list gives a program. -/
theorem faults_of_parse_ok {p : Program} (h : s.parse.1 = .ok p) : s.parse.2.faults = [] := by
  cases hf : s.parse.2.faults with
  | nil => rfl
  | cons f fs =>
    rw [parse_of_head? (f := f) (by simp [hf])] at h
    simp at h

/-! ## Between readings -/

/-- The tokens that were taken are gone from the supply, and the illegal ones among them have been
noted. -/
structure Recorded (tokens : List Token) (s : State) : Prop where
  upcoming : s.supply.upcoming = tokens.drop s.supply.taken
  lexical : s.faults.filter (·.cause.category = .lexical) =
    illegalFaults (tokens.take s.supply.taken)

theorem Recorded.adds {found : List Fault} (hs : Recorded tokens s) (h : Adds s found t)
    (hfound : ∀ f ∈ found, f.cause.category ≠ .lexical) : Recorded tokens t := by
  obtain ⟨n, hsupply, hfaults⟩ := h
  have hnone : found.filter (·.cause.category = .lexical) = [] := by
    rw [List.filter_eq_nil_iff]
    intro f hf
    simpa using hfound f hf
  constructor
  · rw [hsupply]
    simp [Supply.past, hs.upcoming, List.drop_drop]
  · rw [hfaults, List.filter_append, List.filter_append, hs.lexical, filter_illegalFaults, hnone,
      List.append_nil, ← illegalFaults_append, hs.upcoming, hsupply]
    simp [Supply.past, List.take_add]

/-- A supply that is begun is taken from twice. -/
theorem adds_start (supply : Supply) :
    ∃ nothing : State, nothing.supply = supply ∧ nothing.faults = [] ∧
      Adds nothing [] (State.start supply) :=
  let before : Token := .endOfText supply.next.1.span.first
  ⟨⟨before, before, supply, [], 0⟩, rfl, rfl, (Adds.refl _).advance.advance⟩

theorem recorded_start {supply : Supply} (h : supply.taken = 0) :
    Recorded supply.upcoming (State.start supply) := by
  obtain ⟨nothing, rfl, hfaults, hadds⟩ := adds_start supply
  exact Recorded.adds ⟨by simp [h], by simp [h, hfaults, illegalFaults]⟩ hadds (by simp)

theorem recorded_afterParses (hs : Recorded tokens s) (n : Nat) :
    Recorded tokens (s.afterParses n) := by
  induction n with
  | zero => exact hs
  | succ n ih =>
    obtain ⟨blame, hadds, hblame, -⟩ := adds_parse (s.afterParses n)
    exact ih.adds hadds hblame

theorem faults_prefix_afterParses (s : State) {m n : Nat} (h : m ≤ n) :
    (s.afterParses m).faults <+: (s.afterParses n).faults := by
  induction h with
  | refl => exact List.prefix_refl _
  | step _ ih => exact ih.trans (faults_prefix_parse _)

/-! ## Readings after the end -/

theorem current_of_reads_untilEnd {α : Type} {p : Production α} {takes : Consumes p} {as : List α}
    (h : Reads (untilEnd p takes) s as t) : t.current.kind = .endOfText := by
  induction as generalizing s with
  | nil =>
    obtain ⟨hend, rfl⟩ := reads_untilEnd_nil.mp h
    exact hend
  | cons a as ih =>
    obtain ⟨-, u, -, hrest⟩ := reads_untilEnd_cons.mp h
    exact ih hrest

/-- A program is read up to the end of the text. -/
theorem current_of_parse_ok {p : Program} (h : s.parse.1 = .ok p) :
    s.parse.2.current.kind = .endOfText := by
  have hfaults := faults_of_parse_ok h
  rw [parse_snd] at hfaults ⊢
  have hreads : Reads program s p (program s).after := by
    unfold State.parse at h
    simp only [hfaults] at h
    exact ⟨h, rfl⟩
  obtain ⟨name, u, -, hitems⟩ := reads_bind.mp hreads
  obtain ⟨is, v, hread, hpure⟩ := reads_bind.mp hitems
  rw [(reads_pure.mp hpure).2]
  exact current_of_reads_untilEnd hread

/-- At the end there is nothing but the program without a name and without items. -/
theorem parse_of_end (hend : s.current.kind = .endOfText) (hfaults : s.faults = []) :
    s.parse = (.ok ⟨Program.defaultName, [], []⟩, s) := by
  have hname : Reads programName s Program.defaultName s := by
    simp [programName, hend]
  have hreads : Reads program s ⟨Program.defaultName, [], []⟩ s :=
    reads_bind.mpr ⟨_, s, hname, reads_bind.mpr
      ⟨[], s, reads_untilEnd_nil.mpr ⟨hend, rfl⟩, reads_pure.mpr ⟨rfl, rfl⟩⟩⟩
  unfold State.parse
  simp [hreads.1, hreads.2, hfaults]

/-! ## The first reading -/

/-- Words that may begin a program have no illegal one among them. -/
theorem legal_of_sentence (h : Sentence ws) : ∀ w ∈ ws, w.kind ≠ .illegal := by
  obtain ⟨n, vs, p, hprogram, rfl⟩ := h
  intro w hw
  rcases List.mem_append.mp hw with hw | hw
  · exact legal_isProgram n vs p hprogram w hw
  · rw [List.mem_singleton.mp hw]
    decide

/-- Behind legal words only the token ahead may have been noted. -/
theorem faults_of_passes_legal (h : Passes s ws t) (hws : ∀ w ∈ ws, w.kind ≠ .illegal)
    (hs : s.faults = illegalFaults [s.ahead]) : t.faults = illegalFaults [t.ahead] := by
  induction ws generalizing s with
  | nil =>
    obtain rfl := passes_nil.mp h
    exact hs
  | cons w ws ih =>
    obtain ⟨-, rfl, hpass⟩ := passes_cons.mp h
    have hlegal : s.ahead.kind ≠ .illegal := hws _ (List.mem_cons_self ..)
    refine ih hpass (fun v hv => hws v (List.mem_cons_of_mem _ hv)) ?_
    rw [faults_advance_eq, hs]
    simp [illegalFaults, hlegal]

theorem faults_beforeFirst_eq (supply : Supply) :
    (State.beforeFirst supply).faults = illegalFaults [(State.beforeFirst supply).ahead] := by
  rw [State.ahead_beforeFirst]
  unfold State.beforeFirst State.noteIllegal
  split <;> simp_all [State.note, illegalFaults]

/-- When the first reading fails it notes a fault of structure or of meaning, and before it at most
two illegal tokens. -/
theorem faults_parse_start {supply : Supply} (h : ∀ k ∈ supply.upcoming, k.kind ≠ .endOfText)
    (hfail : (State.start supply).parse.1 = .error f) :
    ∃ illegal last, (State.start supply).parse.2.faults = illegal ++ [last] ∧
      illegal.length ≤ 2 ∧ (∀ g ∈ illegal, g.cause.category = .lexical) ∧
        last.cause.category ≠ .lexical := by
  obtain ⟨g, t, M, ⟨ws, hpass, hM, -⟩, hstop⟩ := exists_stop h hfail
  obtain ⟨rest, hrest⟩ := M.exists_allowed
  have hlegal := legal_of_sentence (hM rest hrest)
  have ht := faults_of_passes_legal hpass (fun w hw => hlegal w (List.mem_append_left _ hw))
    (faults_beforeFirst_eq supply)
  obtain ⟨seen, hseen, hfaults⟩ : ∃ seen : List Token, seen.length ≤ 2 ∧
      (State.start supply).parse.2.faults = illegalFaults seen ++ [g] := by
    rcases hstop.place with hplace | hplace
    · exact ⟨[t.ahead], by simp, by simp [hplace, State.note, ht]⟩
    · refine ⟨[t.ahead, t.advance.ahead], by simp, ?_⟩
      rw [hplace, State.note, faults_advance_eq, ht, ← illegalFaults_append]
      rfl
  refine ⟨_, g, hfaults, Nat.le_trans (length_illegalFaults_le seen) hseen,
    fun _ => category_of_mem_illegalFaults, ?_⟩
  -- The fault noted last is the one that reading added.
  obtain ⟨blame, ⟨n, -, hadded⟩, hblame, -, hresult⟩ := adds_parse (State.start supply)
  have hne : blame ≠ [] := by
    intro hnil
    obtain ⟨p, hp⟩ := hresult hnil
    rw [parse_start_of_ok h hp] at hfail
    simp at hfail
  have hlast : blame.getLast? = some g := by
    have := congrArg List.getLast? (hadded.symm.trans hfaults)
    simpa [List.getLast?_append, hne] using this
  exact hblame g (List.mem_of_getLast? hlast)

/-! ## All readings -/

/-- What the list of faults obeys when the program that begins in `s`, before the tokens, is read
again and again. -/
structure Discipline (tokens : List Token) (s : State) : Prop where
  /-- The list grows by appending. -/
  grows {m n : Nat} : m ≤ n → (s.afterParses m).faults <+: (s.afterParses n).faults
  /-- The tokens taken so far are the first ones, so that the others are still to come. -/
  taken (n : Nat) :
    (s.afterParses n).supply.upcoming = tokens.drop (s.afterParses n).supply.taken
  /-- Its lexical faults are those of the illegal tokens taken so far, in order. -/
  lexical (n : Nat) : (s.afterParses n).faults.filter (·.cause.category = .lexical) =
    illegalFaults (tokens.take (s.afterParses n).supply.taken)
  /-- Each reading adds lexical faults and then at most one of another sort. -/
  blame (n : Nat) : ∃ illegal blame,
    (s.afterParses (n + 1)).faults = (s.afterParses n).faults ++ illegal ++ blame ∧
      (∀ f ∈ illegal, f.cause.category = .lexical) ∧
      (∀ f ∈ blame, f.cause.category ≠ .lexical) ∧ blame.length ≤ 1
  /-- The answer is the first fault, if there is one. -/
  refused {n : Nat} {f : Fault} : (s.afterParses (n + 1)).faults.head? = some f →
    (s.afterParses n).parse.1 = .error f
  /-- Without a fault there is a program. -/
  accepted {n : Nat} : (s.afterParses (n + 1)).faults = [] →
    ∃ p, (s.afterParses n).parse.1 = .ok p
  /-- A text that was refused once is refused in the same way ever after. -/
  settled {m n : Nat} {f : Fault} : m ≤ n → (s.afterParses m).parse.1 = .error f →
    (s.afterParses n).parse.1 = .error f
  /-- The first reading notes nothing and gives a program, or notes at most two illegal tokens and
  then one fault of another sort. -/
  first : (s.afterParses 1).faults = [] ∧ (∃ p, s.parse.1 = .ok p) ∨
    ∃ illegal last, (s.afterParses 1).faults = illegal ++ [last] ∧ illegal.length ≤ 2 ∧
      (∀ f ∈ illegal, f.cause.category = .lexical) ∧ last.cause.category ≠ .lexical
  /-- Behind a program there is only the empty one. -/
  exhausted {m n : Nat} {p : Program} : m < n → (s.afterParses m).parse.1 = .ok p →
    (s.afterParses n).parse.1 = .ok ⟨Program.defaultName, [], []⟩

theorem parse_error_iff : s.parse.1 = .error f ↔ s.parse.2.faults.head? = some f := by
  refine ⟨fun h => ?_, parse_of_head?⟩
  cases hfaults : s.parse.2.faults with
  | nil =>
    obtain ⟨p, hp⟩ := exists_parse_of_nil hfaults
    simp [hp] at h
  | cons g gs =>
    rw [parse_of_head? (f := g) (by simp [hfaults])] at h
    simpa using h

/-- A fault that was the first one stays the first one. -/
theorem parse_error_of_le {m n : Nat} (h : m ≤ n) (hm : (s.afterParses m).parse.1 = .error f) :
    (s.afterParses n).parse.1 = .error f := by
  rw [parse_error_iff, ← State.afterParses_succ] at hm ⊢
  obtain ⟨more, hmore⟩ := faults_prefix_afterParses s (Nat.succ_le_succ h)
  rw [← hmore, List.head?_append, hm]
  rfl

/-- Behind a program nothing is taken any more. -/
theorem afterParses_eq_of_lt {m n : Nat} {p : Program} (h : m < n)
    (hm : (s.afterParses m).parse.1 = .ok p) : s.afterParses n = s.afterParses (m + 1) := by
  have hend := current_of_parse_ok hm
  have hfaults := faults_of_parse_ok hm
  rw [← State.afterParses_succ] at hend hfaults
  induction h with
  | refl => rfl
  | step _ ih => rw [State.afterParses_succ, ih, parse_of_end hend hfaults]

/-- The program without a name and without items is all that comes behind a program. -/
theorem parse_empty_of_lt {m n : Nat} {p : Program} (h : m < n)
    (hm : (s.afterParses m).parse.1 = .ok p) :
    (s.afterParses n).parse.1 = .ok ⟨Program.defaultName, [], []⟩ := by
  have hend := current_of_parse_ok hm
  have hfaults := faults_of_parse_ok hm
  rw [← State.afterParses_succ] at hend hfaults
  rw [afterParses_eq_of_lt h hm, parse_of_end hend hfaults]

/-- Wherever in a text reading begins, and however often it is repeated, the list of faults keeps
its discipline. -/
theorem discipline (text : List Char) (file : String) (skipped : Nat) :
    Discipline ((Lexer.ofText text file).after skipped).drain.1
      (.start (.ofLexer ((Lexer.ofText text file).after skipped))) := by
  have hended : ((Lexer.ofText text file).after skipped).ended = false := Lexer.ended_after ..
  generalize (Lexer.ofText text file).after skipped = l at hended
  have hkinds := Lexer.kind_ne_endOfText_of_mem_drain hended
  exact {
    grows := faults_prefix_afterParses _
    taken := fun n => (recorded_afterParses (recorded_start rfl) n).upcoming
    lexical := fun n => (recorded_afterParses (recorded_start rfl) n).lexical
    blame := fun n => by
      obtain ⟨blame, ⟨k, -, hfaults⟩, hblame, hlength, -⟩ :=
        adds_parse ((State.start (.ofLexer l)).afterParses n)
      exact ⟨_, blame, hfaults, fun _ => category_of_mem_illegalFaults, hblame, hlength⟩
    refused := parse_of_head?
    accepted := exists_parse_of_nil
    settled := parse_error_of_le
    first := by
      cases h : (State.start (.ofLexer l)).parse.1 with
      | ok p => exact .inl ⟨faults_of_parse_ok h, p, rfl⟩
      | error f => exact .inr (faults_parse_start hkinds h)
    exhausted := parse_empty_of_lt }

end Grammar
end CircuitText
