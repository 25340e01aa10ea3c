import CircuitText.Proofs.Faults.Last
import CircuitText.Proofs.Lexing.Pulling
import CircuitText.Proofs.Nesting.Statement

/-!
# Texts that are nested too deep

A text that is refused because it is nested too deep begins a program of the grammar without a
limit, and the word that is blamed is the first in it that opens a level when `nestingLimit` levels
are open.  The converse holds as well: where there is such a word, reading comes as far as to it and
ends there.

The state knows a word by its place.  Since the tokens of a text follow each other without meeting,
the place also says which words come before it.

* `refuses_item`, `refuses_program` --- items and programs;
* `eq_of_span_eq`, `meets_iff_of_incoming` --- from places to tokens;
* `last_fault_is_tooDeep_iff` --- texts.
-/

namespace CircuitText
namespace Grammar

open scoped Computability

variable {s t u : State} {σ : Span} {n : Nat}

/-! ## Circuits and references -/

@[simp] theorem not_refuses_registers : ¬ Fails registers s (.tooDeep σ) := by
  simp [registers, fails_bind (p := list registerName)]

@[simp] theorem not_refuses_nameMark : ¬ Fails nameMark s (.tooDeep σ) := by
  simp [nameMark]

@[simp] theorem not_refuses_inclusion : ¬ Fails inclusion s (.tooDeep σ) := by
  simp [inclusion, fails_bind (p := nameMark)]

@[simp] theorem not_refuses_programName : ¬ Fails programName s (.tooDeep σ) := by
  simp [programName]

/-- The rule for items, for the word for which no level is left. -/
theorem meets_items :
    Meets n Marked.items s σ ↔ s.ahead.kind = .circuit ∧ s.advance.ahead.kind = .ident ∧
      ∃ t, (∃ r, Spans IsRegisters s.advance.advance r t) ∧ t.ahead.kind = .leftBrace ∧
        Meets n Marked.blocks t.advance σ := by
  simp only [Marked.items, map_mul, mul_assoc, meets_add, meets_mul, not_meets_plain, false_or,
    or_false, and_false, exists_false, within_plain, ne_eq, reduceCtorEq, not_false_eq_true,
    crosses_ofKind, crosses_wordsOf, and_assoc, exists_and_left, exists_eq_left]

/-- A circuit is refused inside its braces, which open no level. -/
theorem refuses_circuit (hk : s.ahead.kind = .circuit) :
    Fails circuit s.advance (.tooDeep σ) ↔ Meets s.levels Marked.items s σ := by
  have hblock : ∀ {r t}, Spans IsRegisters s.advance.advance r t →
      (Fails block t.advance (.tooDeep σ) ↔ Meets s.levels Marked.blocks t.advance σ) := by
    intro r t hspan
    rw [refuses_block, levels_advance, hspan.levels, levels_advance, levels_advance]
  simp only [circuit, fails_expectName_bind, fails_bind (p := registers), fails_expect_bind,
    fails_bind_pure, not_refuses_registers, tooDeep_ne_expected, and_false, false_or, meets_items,
    hk, true_and]
  refine and_congr_right fun _ => ?_
  constructor
  · rintro ⟨r, t, hread, hopen, hfails⟩
    have hspan := (reads_registers hopen).mp hread
    exact ⟨t, ⟨r, hspan⟩, hopen, (hblock hspan).mp hfails⟩
  · rintro ⟨t, ⟨r, hspan⟩, hopen, hmeets⟩
    exact ⟨r, t, (reads_registers hopen).mpr hspan, hopen, (hblock hspan).mpr hmeets⟩

/-- An item is refused at the first word for which no level is left. -/
theorem refuses_item :
    Fails item s.advance (.tooDeep σ) ↔ Meets s.levels Marked.items s σ := by
  rw [item, fails_current_bind, current_advance]
  split
  · rename_i hk
    rw [fails_bind, refuses_circuit hk]
    simp
  · rename_i hk
    simp [fails_bind (p := inclusion), meets_items, hk]
  · rename_i hcircuit hinclusion
    simp [meets_items, show s.ahead.kind ≠ .circuit from hcircuit, Fault.tooDeep]

/-! ## Programs -/

/-- The items of a program are refused at the first word for which no level is left. -/
theorem refuses_items :
    Fails (untilEnd item consumes_item) s.advance (.tooDeep σ) ↔
      Meets s.levels Marked.items∗ s σ := by
  induction hrem : s.advance.remaining using Nat.strongRecOn generalizing s with
  | ind r ihr =>
    have hmore : ∀ {i t}, Spans (IsItem s.levels) s i t →
        (Fails (untilEnd item consumes_item) t.advance (.tooDeep σ) ↔
          Meets s.levels Marked.items∗ t σ) := by
      intro i t hspan
      have hread := reads_item.mpr ⟨t, hspan, rfl⟩
      have hlt := consumes_item s.advance i hread.1
      rw [hread.2] at hlt
      rw [ihr t.advance.remaining (by omega) rfl, hspan.levels]
    rw [fails_untilEnd, current_advance, refuses_item, meets_kstar, within_items]
    simp only [crosses_wordsOf]
    constructor
    · rintro ⟨-, hmeets | ⟨i, u, hread, hfails⟩⟩
      · exact .inl hmeets
      · obtain ⟨t, hspan, rfl⟩ := reads_item.mp hread
        exact .inr ⟨t, ⟨i, hspan⟩, (hmore hspan).mp hfails⟩
    · rintro (hmeets | ⟨t, ⟨i, hspan⟩, hmeets⟩)
      · exact ⟨by simp [(meets_items.mp hmeets).1], .inl hmeets⟩
      · refine ⟨?_, .inr ⟨i, t.advance, reads_item.mpr ⟨t, hspan, rfl⟩, (hmore hspan).mpr hmeets⟩⟩
        rcases ahead_of_spans_item hspan with hk | hk <;> simp [hk]

theorem ahead_of_meets_items (h : Meets n Marked.items∗ s σ) :
    s.ahead.kind = .circuit ∨ s.ahead.kind = .inclusion := by
  rw [meets_kstar, within_items] at h
  simp only [crosses_wordsOf] at h
  rcases h with h | ⟨t, ⟨i, hspan⟩, -⟩
  · exact .inl (meets_items.mp h).1
  · exact ahead_of_spans_item hspan

/-- A program is refused at the first word for which no level is left. -/
theorem refuses_program :
    Fails program s.advance (.tooDeep σ) ↔ Meets s.levels Marked.programs s σ := by
  have hitems : ∀ {x t}, Spans IsProgramName s x t →
      (Fails (untilEnd item consumes_item) t.advance (.tooDeep σ) ↔
        Meets s.levels Marked.items∗ t σ) := by
    intro x t hspan
    rw [refuses_items, hspan.levels]
  simp only [program, fails_bind (p := programName), not_refuses_programName, false_or,
    Marked.programs, meets_mul, not_meets_plain, within_plain, crosses_wordsOf]
  constructor
  · rintro ⟨x, u, hread, hfails⟩
    obtain ⟨t, hspan, rfl⟩ := spans_of_reads_programName hread
    exact ⟨t, ⟨x, hspan⟩, (hitems hspan).mp (fails_bind_pure.mp hfails)⟩
  · rintro ⟨t, ⟨x, hspan⟩, hmeets⟩
    refine ⟨x, t.advance, reads_programName_of_spans hspan ?_,
      fails_bind_pure.mpr ((hitems hspan).mpr hmeets)⟩
    rcases ahead_of_meets_items hmeets with hk | hk <;> simp [hk]

/-! ## Texts -/

/-- Moving on over the words of the tokens that come first brings the next token in sight. -/
theorem passes_of_incoming {passed more : List Token} {k : Token} (hs : s.Regular)
    (h : s.incoming = passed ++ k :: more) :
    ∃ t, Passes s (passed.map (·.word)) t ∧ t.ahead = k := by
  induction passed generalizing s with
  | nil =>
    obtain ⟨rest, hrest⟩ := s.exists_incoming
    rw [hrest] at h
    exact ⟨s, rfl, (List.cons.inj h).1⟩
  | cons j passed ih =>
    have hend : s.ahead.kind ≠ .endOfText := by
      intro hend
      rw [State.incoming, if_pos hend] at h
      simp at h
    rw [State.incoming_of_ne_end hs hend] at h
    obtain ⟨rfl, hrest⟩ := List.cons.inj h
    obtain ⟨t, hpass, ht⟩ := ih hs.advance hrest
    exact ⟨t, ⟨hend, rfl, hpass⟩, ht⟩

/-- Where no two tokens stand in the same place, a token and what comes before it are known by its
place. -/
theorem eq_of_span_eq {passed passed' more more' : List Token} {k k' : Token}
    (hnodup : ((passed ++ k :: more).map (·.span)).Nodup)
    (h : passed ++ k :: more = passed' ++ k' :: more') (hspan : k.span = k'.span) :
    passed = passed' ∧ k = k' := by
  have hleft : ((passed ++ k :: more).map (·.span))[passed.length]? = some k.span := by simp
  have hright : ((passed ++ k :: more).map (·.span))[passed'.length]? = some k.span := by
    rw [h, hspan]
    simp
  have hlength : passed.length = passed'.length :=
    (List.getElem?_inj (by simp) hnodup).mp (hleft.trans hright.symm)
  obtain ⟨hpassed, hrest⟩ := List.append_inj h hlength
  exact ⟨hpassed, (List.cons.inj hrest).1⟩

/-- Where no two tokens stand in the same place, the word that is met at the place of a token is
that token's, and the words before it are those of the tokens before. -/
theorem meets_iff_of_incoming {X : Language Marked} {passed more : List Token} {k : Token}
    (hs : s.Regular) (hnodup : (s.incoming.map (·.span)).Nodup)
    (h : s.incoming = passed ++ k :: more) :
    Meets n X s k.span ↔ ∃ front back, front ++ (k.word, some n) :: back ∈ X ∧
      (∀ m ∈ front, m.2 ≠ some n) ∧ front.map Prod.fst = passed.map (·.word) := by
  constructor
  · rintro ⟨front, _, back, t, hmem, hfront, hpass, rfl, hσ⟩
    obtain ⟨passed', hincoming, hwords⟩ := exists_incoming_of_passes hs hpass
    obtain ⟨more', hmore⟩ := t.exists_incoming
    rw [hmore] at hincoming
    rw [hincoming] at hnodup h
    obtain ⟨rfl, rfl⟩ := eq_of_span_eq hnodup h hσ
    exact ⟨front, back, hmem, hfront, hwords.symm⟩
  · rintro ⟨front, back, hmem, hfront, hwords⟩
    obtain ⟨t, hpass, rfl⟩ := passes_of_incoming hs h
    exact ⟨front, _, back, t, hmem, hfront, hwords ▸ hpass, rfl, rfl⟩

/-- The fault that was noted last blames a token for being nested too deep just when the words up to
it begin a program of the grammar without a limit, it is a word that opens a level there, as many
levels as the limit are open before it, and before no earlier word that opens a level were as many
open.  The marks tell no less and no more than the grammar: without them the marked programs are the
programs without a limit, and those in which no word has `n` levels open before it are the programs
that get by with `n` levels. -/
theorem last_fault_is_tooDeep_iff (text : List Char) (file : String) (passed more : List Token)
    (t : Token) (hstream : (Lexer.ofText text file).stream = passed ++ t :: more) :
    (∀ ws, (∃ ms ∈ Marked.programs, ms.map Prod.fst = ws) ↔ ∃ n p, IsProgram n ws p) ∧
    (∀ n ws, (∃ ms ∈ Marked.programs, (∀ m ∈ ms, m.2 ≠ some n) ∧ ms.map Prod.fst = ws) ↔
      ∃ p, IsProgram n ws p) ∧
    ((State.start (.ofLexer (.ofText text file))).parse.2.faults.getLast? =
        some ⟨.nestedTooDeep, t.span⟩ ↔
      ∃ front back, front ++ (t.word, some nestingLimit) :: back ∈ Marked.programs ∧
        (∀ m ∈ front, m.2 ≠ some nestingLimit) ∧
          front.map Prod.fst = passed.map (·.word)) := by
  refine ⟨fun ws => exists_marks_iff, fun n ws => ?_, ?_⟩
  · rw [← mem_within, within_programs, mem_wordsOf]
  · have hkinds := Lexer.kind_ne_endOfText_of_mem_drain (l := .ofText text file) rfl
    have hincoming : (State.beforeFirst (.ofLexer (.ofText text file))).incoming =
        (Lexer.ofText text file).stream := incoming_ofLexer rfl
    rw [getLast?_parse_eq_some_iff (by simp [Cause.category]), State.start_eq]
    show Fails program _ (.tooDeep t.span) ↔ _
    rw [refuses_program, State.levels_beforeFirst]
    exact meets_iff_of_incoming (State.regular_beforeFirst hkinds)
      (hincoming ▸ Lexer.nodup_span_stream text file) (hincoming.trans hstream)

/-- Clocks, prefix operators and brackets around operands in one another, behind others that were
closed before. -/
theorem last_fault_is_tooDeep_iff_mixed :
    let text := "circuit m \x7b ".toList ++ (List.replicate 4 "clock 1 ns \x7b ".toList).flatten ++
      "¬a & (b) -> c; ".toList ++ (List.replicate 62 "¬(".toList).flatten ++ "¬d & e".toList
    let tokens := (Lexer.ofText text "here").stream
    let t : Token := ⟨.prefixOp, "¬", .point ⟨"here", 1, 204⟩⟩
    tokens = tokens.take 152 ++ t :: tokens.drop 153 ∧
      (State.start (.ofLexer (.ofText text "here"))).parse.2.faults.getLast? =
        some ⟨.nestedTooDeep, t.span⟩ ∧
      ∃ front back, front ++ (t.word, some nestingLimit) :: back ∈ Marked.programs ∧
        (∀ m ∈ front, m.2 ≠ some nestingLimit) ∧
          front.map Prod.fst = (tokens.take 152).map (·.word) := by
  intro text tokens t
  have hstream : tokens = tokens.take 152 ++ t :: tokens.drop 153 := by decide +kernel
  have hlast : (State.start (.ofLexer (.ofText text "here"))).parse.2.faults.getLast? =
      some ⟨.nestedTooDeep, t.span⟩ := by decide +kernel
  exact ⟨hstream, hlast, (last_fault_is_tooDeep_iff text "here" _ _ t hstream).2.2.mp hlast⟩

end Grammar
end CircuitText
