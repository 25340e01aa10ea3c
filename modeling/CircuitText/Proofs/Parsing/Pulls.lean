import CircuitText.Proofs.Faults.Discipline
import CircuitText.Proofs.Lexing.Pulling
import CircuitText.Proofs.Parsing.Taking

/-!
# What reading takes from a lexer

Reading takes its tokens from a lexer, which may have been asked for some of them before.  The two
tokens in sight are the ones that were taken last, from the first state to the last one of every
reading, and the current one is never behind the first end token.  So from a lexer with `n` tokens
left no more than `n + 2` are taken, in however many readings, and once a program has been read that
many have been.

* `Lexer.Holds.give_ofLexer` --- the supply gives what the lexer gives;
* `Visits.taken_le` --- no token is given back on the way;
* `atLeast_afterParses` --- no reading passes the end;
* `exists_visits_and_taken_le` --- all of this for the lexer of a text.
-/

namespace CircuitText

/-! ## What a lexer has left -/

namespace Lexer

variable {l : Lexer} {finish : Position} {ts : List Token}

/-- The lexer behind so many pulls. -/
def pulled (l : Lexer) : List Pull → Lexer
  | [] => l
  | p :: ps => (l.pull p).2.pulled ps

theorem exists_holds_pulled (h : Holds finish l ts) (ps : List Pull) :
    ∃ left, Holds finish (l.pulled ps) left := by
  induction ps generalizing l ts with
  | nil => exact ⟨ts, h⟩
  | cons p ps ih =>
    obtain ⟨left, -, hleft⟩ := answers_pull h p
    exact ih hleft

/-- What a lexer holds is what is left of it, without an end token. -/
theorem Holds.drain_eq (h : Holds finish l ts) :
    l.drain.1 = ts ∧ ∀ t ∈ ts, t.kind ≠ .endOfText := by
  induction h with
  | nil hgap hplace =>
    obtain ⟨hnone, -⟩ := Holds.next?_nil (.nil hgap hplace)
    exact ⟨by rw [drain_of_next?_eq_none (Prod.ext (y := (none, _)) hnone rfl)], by simp⟩
  | @cons l c cs ts hended hgap _ ih =>
    refine ⟨by rw [drain_of_lexeme hended hgap, ih.1], List.forall_mem_cons.mpr ⟨?_, ih.2⟩⟩
    exact Lexeme.kind_read_ne_endOfText c cs

theorem Holds.nextToken (h : Holds finish l ts) :
    l.nextToken.1 = ts.head?.getD (.endOfText finish) ∧ Holds finish l.nextToken.2 ts.tail := by
  cases h with
  | nil hgap hplace =>
    have hnil : Holds finish l [] := .nil hgap hplace
    rw [hnil.nextToken_nil]
    exact ⟨rfl, hnil.skipGap _⟩
  | @cons _ c cs ts hended hgap more =>
    rw [nextToken_of_lexeme hgap]
    exact ⟨rfl, more⟩

/-- A lexer that is asked for tokens one by one gives what it holds, and then the end token. -/
theorem Holds.nextToken_after (h : Holds finish l ts) (i : Nat) :
    (l.after i).nextToken.1 = ts[i]?.getD (.endOfText finish) := by
  induction i generalizing l ts with
  | zero => rw [← List.head?_eq_getElem?]; exact h.nextToken.1
  | succ i ih => rw [after, ih h.nextToken.2, List.getElem?_tail]

/-- The supply of the tokens that a lexer has left gives what the lexer gives. -/
theorem Holds.give_ofLexer (h : Holds finish l ts) (i : Nat) :
    (Supply.ofLexer l).give i = (l.after i).nextToken.1 := by
  have hfinish : l.drain.2.nextToken.1 = .endOfText finish :=
    congrArg Prod.fst (answers_drain h).2.nextToken_nil
  rw [h.nextToken_after, Supply.give, Supply.ofLexer, h.drain_eq.1, hfinish]
  rfl

theorem Holds.kind_give_iff (h : Holds finish l ts) (i : Nat) :
    ((Supply.ofLexer l).give i).kind = .endOfText ↔ l.drain.1.length ≤ i := by
  rw [h.give_ofLexer, h.nextToken_after, h.drain_eq.1]
  cases hi : ts[i]? with
  | none => simpa [Token.endOfText] using List.getElem?_eq_none_iff.mp hi
  | some t =>
    obtain ⟨hlt, rfl⟩ := List.getElem?_eq_some_iff.mp hi
    simpa [h.drain_eq.2 ts[i] (List.getElem_mem hlt)] using hlt

end Lexer

namespace Grammar

variable {α : Type} {p : Production α} {supply : Supply} {s t : State} {path : List State}

/-! ## On the way -/

theorem Step.taken_le (h : Step s t) : s.supply.taken ≤ t.supply.taken := by
  cases h with
  | advance =>
    rw [State.supply_advance, Supply.taken_next]
    exact Nat.le_succ _
  | note | deeper | shallower => exact Nat.le_refl _

/-- No token is given back on the way. -/
theorem Visits.taken_le (h : Visits p s path) :
    ∀ t ∈ path, t.supply.taken ≤ (p s).after.supply.taken := fun t ht =>
  h.isChain.backwards_cons_induction (fun t => t.supply.taken ≤ (p s).after.supply.taken) path
    h.getLast_eq (fun _ _ hstep => Nat.le_trans hstep.taken_le) (Nat.le_refl _) t
    (List.mem_cons_of_mem s ht)

/-- A supply is begun with its first token as the current one. -/
theorem standsAt_start (supply : Supply) : StandsAt supply 0 (State.start supply) where
  supply_eq := by
    rw [State.start_eq, State.supply_advance, State.supply_beforeFirst, Supply.next_eq_past,
      Supply.next_eq_past, Supply.past_past]
  current_eq := by
    rw [State.start_eq, current_advance, State.ahead_beforeFirst, Supply.next_fst]
  ahead_eq := by
    rw [State.start_eq, State.ahead_advance, State.supply_beforeFirst, Supply.next_fst,
      Supply.next_eq_past, Supply.give_past]

/-- Each reading ends no later than at the first end token. -/
theorem atLeast_afterParses (supply : Supply) (n : Nat) :
    AtLeast supply 0 ((State.start supply).afterParses n) := by
  induction n with
  | zero => exact ⟨0, standsAt_start supply, Nat.zero_le _⟩
  | succ n ih =>
    rw [State.afterParses_succ, parse_snd]
    exact (leads_program _ ih).1

/-- Where a reading passes, and how many tokens have been taken there. -/
theorem StandsAt.of_ofLexer {finish : Position} {ts : List Token} {l : Lexer} {i : Nat}
    (h : StandsAt (.ofLexer l) i s) (hl : l.Holds finish ts) :
    s.supply.taken = i + 2 ∧ s.current = (l.after i).nextToken.1 ∧
      s.ahead = (l.after (i + 1)).nextToken.1 := by
  refine ⟨?_, by rw [h.current_eq, hl.give_ofLexer], by rw [h.ahead_eq, hl.give_ofLexer]⟩
  rw [h.supply_eq]
  exact Nat.zero_add _

/-- However a lexer has been asked for the tokens of a text, and however often a program is read
from it then: each reading comes to its end step by step; on the way the tokens in sight are the two
that were taken last, and the current one is at most the first end token behind the `n` that were
left, so that no more than `n + 2` are taken in all.  When the first reading gives a program just
that many have been taken, and no further reading takes any. -/
theorem exists_visits_and_taken_le (text : List Char) (file : String) (ps : List Pull) :
    let l := (Lexer.ofText text file).pulled ps
    let n := l.drain.1.length
    let readings := (State.start (.ofLexer l)).afterParses
    (∀ i, (l.after i).nextToken.1.kind = .endOfText ↔ n ≤ i) ∧
      (∀ k, (readings k).supply.taken ≤ n + 2 ∧ (∃ path, Visits program (readings k) path) ∧
        ∀ path, Visits program (readings k) path →
          path.getLast?.getD (readings k) = readings (k + 1) ∧
          ∀ t ∈ readings k :: path, ∃ i ≤ n, t.supply.taken = i + 2 ∧
            t.current = (l.after i).nextToken.1 ∧ t.ahead = (l.after (i + 1)).nextToken.1) ∧
      ∀ p, (readings 0).parse.1 = .ok p → ∀ k, 0 < k → (readings k).supply.taken = n + 2 := by
  intro l n readings
  obtain ⟨ts, hl⟩ : ∃ ts, Lexer.Holds _ l ts :=
    Lexer.exists_holds_pulled (Lexer.holds_drain (l := Lexer.ofText text file) rfl) ps
  have hlength : (Supply.ofLexer l).upcoming.length = n := rfl
  have hstands (k : Nat) : ∃ i ≤ n, StandsAt (.ofLexer l) i (readings k) := by
    obtain ⟨i, hi, hle⟩ := atLeast_afterParses (.ofLexer l) k
    exact ⟨i, hle, hi⟩
  have htaken (k : Nat) : (readings k).supply.taken ≤ n + 2 := by
    obtain ⟨i, hle, hi⟩ := hstands k
    rw [(hi.of_ofLexer hl).1]
    exact Nat.add_le_add_right hle 2
  have hnext (k : Nat) : (program (readings k)).after = readings (k + 1) := (parse_snd _).symm
  refine ⟨fun i => ?_, fun k => ⟨htaken k, built_program.exists_visits _, fun path hpath => ?_⟩,
    fun p hp k hk => ?_⟩
  · rw [← hl.give_ofLexer]
    exact hl.kind_give_iff i
  · obtain ⟨i, hle, hi⟩ := hstands k
    refine ⟨hpath.after_eq.symm.trans (hnext k), List.forall_mem_cons.mpr
      ⟨⟨i, hle, hi.of_ofLexer hl⟩, fun t ht => ?_⟩⟩
    obtain ⟨j, hj⟩ := hpath.of_step (fun _ _ => Step.exists_standsAt) ⟨i, hi⟩ t ht
    have hafter := hpath.taken_le t ht
    rw [hnext, (hj.of_ofLexer hl).1] at hafter
    exact ⟨j, by have := htaken (k + 1); omega, hj.of_ofLexer hl⟩
  · have hsame : readings k = readings 1 := afterParses_eq_of_lt hk hp
    obtain ⟨i, hle, hi⟩ := hstands 1
    have hend : (readings 1).current.kind = .endOfText := current_of_parse_ok hp
    rw [hi.current_eq, hl.kind_give_iff] at hend
    rw [hsame, (hi.of_ofLexer hl).1, Nat.le_antisymm hle hend]

/-- Behind a token that was taken before, a circuit has four tokens; reading it takes six, and
reading again takes none. -/
theorem exists_visits_and_taken_le_circuit :
    let l := (Lexer.ofText "; circuit c { }".toList "here").pulled [.next]
    let readings := (State.start (.ofLexer l)).afterParses
    (∃ p, (readings 0).parse.1 = .ok p) ∧ (∀ k, 0 < k → (readings k).supply.taken = 6) ∧
      ∃ path, Visits program (readings 0) path ∧ ∀ t ∈ path, t.supply.taken ≤ 6 := by
  intro l readings
  have hn : l.drain.1.length = 4 := by decide +kernel
  have hp : (readings 0).parse.1.toOption.isSome := by decide +kernel
  obtain ⟨p, hp⟩ : ∃ p, (readings 0).parse.1 = .ok p := by
    cases h : (readings 0).parse.1 with
    | ok p => exact ⟨p, rfl⟩
    | error f => simp [h, Except.toOption] at hp
  obtain ⟨-, hreadings, htaken⟩ :=
    exists_visits_and_taken_le "; circuit c { }".toList "here" [.next]
  obtain ⟨-, ⟨path, hpath⟩, hway⟩ := hreadings 0
  refine ⟨⟨p, hp⟩, fun k hk => ?_, path, hpath, fun t ht => ?_⟩
  · exact (htaken p hp k hk).trans (congrArg (· + 2) hn)
  · obtain ⟨i, hi, hcount, -⟩ := (hway path hpath).2 t (List.mem_cons_of_mem _ ht)
    rw [hcount]
    exact Nat.add_le_add_right (hn ▸ hi) 2

end Grammar
end CircuitText
