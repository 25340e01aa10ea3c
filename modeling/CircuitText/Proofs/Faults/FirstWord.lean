import CircuitText.Proofs.Faults.Prospect
import CircuitText.Proofs.Parsing.Unlimited

/-!
# The rules by their first words

The grammar is such that the first word of a phrase, and now and then the second, tells which rule
makes the phrase.  Here each rule without a nesting limit is turned into what may follow the first
word, kind of word by kind of word; a kind that is not mentioned cannot come first.

* `tail`, `allows_expression_cons` --- expressions;
* `outlet`, `allows_statement_cons` --- statements;
* `allows_item_cons`, `before_isProgramName` --- items and the names of programs;
* `Sentence`, `sentences` --- complete texts.
-/

namespace CircuitText
namespace Grammar

open Prospect

variable {K L : Prospect} {ws vs : List Word} {w : Word} {k : Kind}

/-! ## Phrases that occur -/

instance : Occurs IsRegister := ⟨_, _, .mk (x := "")⟩

instance : Occurs IsParameter := ⟨_, _, .register (x := "")⟩

instance : Occurs IsOutputs := ⟨_, _, .single (.register (x := ""))⟩

instance : Occurs IsCallOutputs := ⟨_, _, .none⟩

instance : Occurs IsCounter := ⟨_, _, .none⟩

instance : Occurs IsRegisters := ⟨_, _, .none⟩

instance : Occurs IsProgramName := ⟨_, _, .none⟩

instance : Occurs AnyExpression := ⟨_, _, anyExpression_iff.mpr (.operand (.register (x := "")))⟩

instance : Occurs AnyBlock := ⟨_, _, anyBlock_iff.mpr .nil⟩

/-! ## Names and parameters -/

theorem before_isRegister : before IsRegister K = word .ident K := by
  ext ws
  rw [allows_word]
  constructor
  · rintro ⟨_, x, rest, rfl, ⟨⟩, hrest⟩
    exact ⟨x, rest, rfl, hrest⟩
  · rintro ⟨x, rest, rfl, hrest⟩
    exact allows_before_append (IsRegister.mk (x := x)) hrest

theorem before_isParameter :
    before IsParameter K = (word .ident K).or (word .percent (word .ident K)) := by
  ext ws
  constructor
  · rintro ⟨_, a, rest, rfl, ⟨⟩ | ⟨⟩, hrest⟩
    · exact .inl ⟨rfl, hrest⟩
    · exact .inr ⟨rfl, rfl, hrest⟩
  · rintro (h | h)
    · obtain ⟨x, rest, rfl, hrest⟩ := allows_word.mp h
      exact allows_before_append (IsParameter.register (x := x)) hrest
    · obtain ⟨p, _, rfl, hname⟩ := allows_word.mp h
      obtain ⟨x, rest, rfl, hrest⟩ := allows_word.mp hname
      exact allows_before_append (IsParameter.group (p := p) (x := x)) hrest

/-! ## Expressions -/

/-- After an operand: nothing more of the expression, or an infix operator and the rest of it. -/
def tail (K : Prospect) : Prospect := K.or (word .infixOp (before AnyExpression K))

/-- An expression is an operand, which may be followed by an infix operator and an expression unless
it begins with a prefix operator. -/
theorem allows_expression :
    (before AnyExpression K).allows ws ↔ ∃ vs e rest, ws = vs ++ rest ∧
      OperandOver AnyExpression vs e ∧ (tail K).allows rest ∧
      (Begins .prefixOp vs → K.allows rest) := by
  constructor
  · rintro ⟨vs, e, rest, rfl, hvs, hrest⟩
    cases anyExpression_iff.mp hvs with
    | operand operand => exact ⟨vs, e, rest, rfl, operand, .inl hrest, fun _ => hrest⟩
    | @binary o vs ws left right operand closed more =>
      refine ⟨vs, left, ⟨.infixOp, o⟩ :: (ws ++ rest), by simp, operand, .inr ⟨rfl, ?_⟩,
        fun h => absurd h closed⟩
      exact allows_before_append (anyExpression_iff.mpr more) hrest
  · rintro ⟨vs, e, rest, rfl, hvs, hrest | hrest, hbegins⟩
    · exact allows_before_append (anyExpression_iff.mpr (.operand hvs)) hrest
    · by_cases hb : Begins .prefixOp vs
      · exact allows_before_append (anyExpression_iff.mpr (.operand hvs)) (hbegins hb)
      · obtain ⟨o, _, rfl, ws, e', rest, rfl, hws, hrest⟩ := allows_word.mp hrest
        have h := ExpressionOver.binary (o := o) hvs hb (anyExpression_iff.mp hws)
        have hall := allows_before_append (K := K) (anyExpression_iff.mpr h) hrest
        simpa using hall

/-- What may follow the first word of an expression. -/
theorem allows_expression_cons :
    (before AnyExpression K).allows (w :: ws) ↔
      match w.kind with
      | .ident => (tail K).allows ws
      | .number => (w.literal = "0" ∨ w.literal = "1") ∧ (tail K).allows ws
      | .percent => (word .ident (tail K)).allows ws
      | .leftParen => (before AnyExpression (word .rightParen (tail K))).allows ws
      | .prefixOp => (before AnyExpression K).allows ws
      | _ => False := by
  obtain ⟨k, l⟩ := w
  rw [allows_expression]
  constructor
  · rintro ⟨vs, e, rest, heq, hvs, hrest, hbegins⟩
    cases hvs with
    | register | zero | one | group =>
      simp only [List.cons_append, List.nil_append, List.cons.injEq, Word.mk.injEq] at heq
      obtain ⟨⟨rfl, rfl⟩, rfl⟩ := heq
      simpa using hrest
    | bracketed inside =>
      have h : (before (Bracketed AnyExpression) (tail K)).allows (⟨k, l⟩ :: ws) :=
        heq ▸ allows_before_append inside hrest
      rw [before_bracketed] at h
      obtain ⟨rfl, h⟩ := h
      exact h
    | unary operand =>
      simp only [List.cons_append, List.cons.injEq, Word.mk.injEq] at heq
      obtain ⟨⟨rfl, rfl⟩, rfl⟩ := heq
      exact allows_before_append operand (hbegins ⟨_, _, rfl, rfl⟩)
  · intro h
    have hclosed : ∀ {vs : List Word}, k ≠ .prefixOp → ¬ Begins .prefixOp (⟨k, l⟩ :: vs) := by
      rintro vs hk ⟨w, rest, heq, hw⟩
      obtain ⟨rfl, -⟩ := List.cons.inj heq
      exact hk hw
    cases k with
    | ident => exact ⟨_, _, ws, rfl, .register, h, fun hb => absurd hb (hclosed (by simp))⟩
    | number =>
      obtain ⟨rfl | rfl, h⟩ := h
      · exact ⟨_, _, ws, rfl, .zero, h, fun hb => absurd hb (hclosed (by simp))⟩
      · exact ⟨_, _, ws, rfl, .one, h, fun hb => absurd hb (hclosed (by simp))⟩
    | percent =>
      obtain ⟨x, rest, rfl, hrest⟩ := allows_word.mp h
      exact ⟨[_, _], _, rest, rfl, .group, hrest, fun hb => absurd hb (hclosed (by simp))⟩
    | leftParen =>
      obtain ⟨vs, e, _, rfl, inside, hclose⟩ := h
      obtain ⟨r, rest, rfl, hrest⟩ := allows_word.mp hclose
      exact ⟨_, e, rest, by simp, .bracketed (.mk (l := l) (r := r) inside), hrest,
        fun hb => absurd hb (hclosed (by simp))⟩
    | prefixOp =>
      obtain ⟨vs, e, rest, rfl, operand, h⟩ := h
      exact ⟨⟨.prefixOp, l⟩ :: vs, _, rest, rfl, .unary operand, .inl h, fun _ => h⟩
    | _ => exact h.elim

/-! ## Statements -/

/-- The number and the unit of a delay. -/
def IsPeriod : Phrase Delay := fun ws d =>
  ∃ n u, ws = [⟨.number, n⟩, ⟨.ident, u⟩] ∧ Delay.IsWritten n u d

/-- The inputs of a pipe, however deep. -/
abbrev AnyInputs : Phrase (List Expression) := Unlimited IsInputs

/-- The arrow, the outputs and the semicolon of a pipe. -/
def outlet (K : Prospect) : Prospect := word .arrow (before IsOutputs (word .semicolon K))

instance : Occurs IsPeriod :=
  ⟨_, ⟨1, by decide⟩, "1", "ns", rfl, 1, .nanosecond, @Delay.IsAmount.whole [] ['1']
    (by simp) (by simp) (List.forall_mem_singleton.mpr rfl), by decide, by decide, rfl, rfl⟩

instance : Occurs AnyInputs := ⟨_, _, 0, .listed (.mk (l := "") (r := "") .nil)⟩

instance : Occurs AnyStatement :=
  ⟨_, _, 0, .group (p := "") (x := "") (s := "") (.mk (l := "") (r := "") .nil)⟩

theorem before_isOutputs :
    before IsOutputs K = (before IsParameter K).or (before (Bracketed (Items IsParameter)) K) := by
  ext ws
  constructor
  · rintro ⟨vs, os, rest, rfl, parameter | list, hrest⟩
    · exact .inl (allows_before_append parameter hrest)
    · exact .inr (allows_before_append list hrest)
  · rintro (⟨vs, o, rest, rfl, hvs, hrest⟩ | ⟨vs, os, rest, rfl, hvs, hrest⟩)
    · exact allows_before_append (IsOutputs.single hvs) hrest
    · exact allows_before_append (IsOutputs.listed hvs) hrest

theorem before_isCallOutputs :
    before IsCallOutputs K =
      K.or (word .arrow (before (Bracketed (Items IsParameter)) K)) := by
  ext ws
  constructor
  · rintro ⟨vs, os, rest, rfl, _ | list, hrest⟩
    · exact .inl hrest
    · exact .inr ⟨rfl, allows_before_append list hrest⟩
  · rintro (h | h)
    · exact ⟨[], [], ws, rfl, .none, h⟩
    · obtain ⟨a, _, rfl, vs, os, rest, rfl, list, hrest⟩ := allows_word.mp h
      exact allows_before_append (IsCallOutputs.listed (a := a) list) hrest

theorem before_isCounter : before IsCounter K = K.or (word .percent (word .ident K)) := by
  ext ws
  constructor
  · rintro ⟨vs, c, rest, rfl, ⟨⟩ | ⟨⟩, hrest⟩
    · exact .inl hrest
    · exact .inr ⟨rfl, rfl, hrest⟩
  · rintro (h | h)
    · exact ⟨[], _, ws, rfl, .none, h⟩
    · obtain ⟨p, _, rfl, hname⟩ := allows_word.mp h
      obtain ⟨x, rest, rfl, hrest⟩ := allows_word.mp hname
      exact allows_before_append (IsCounter.group (p := p) (x := x)) hrest

/-- Inputs of a pipe that do not begin with a bracket are an expression. -/
theorem allows_inputs_bare (hw : w.kind ≠ .leftParen) :
    (before AnyInputs K).allows (w :: ws) ↔ (before AnyExpression K).allows (w :: ws) := by
  have hbegins : ∀ {vs rest : List Word}, w :: ws = vs ++ rest → ¬ Begins .leftParen vs := by
    rintro vs rest heq ⟨w', vs, rfl, hw'⟩
    obtain ⟨rfl, -⟩ := List.cons.inj heq
    exact hw hw'
  constructor
  · rintro ⟨vs, es, rest, heq, ⟨n, hvs⟩, hrest⟩
    cases hvs with
    | single expression => exact heq ▸ allows_before_append ⟨n, expression⟩ hrest
    | listed list =>
      cases list
      exact absurd ⟨_, _, rfl, rfl⟩ (hbegins heq)
    | binary operand =>
      cases operand
      exact absurd ⟨_, _, rfl, rfl⟩ (hbegins heq)
  · rintro ⟨vs, e, rest, heq, ⟨n, hvs⟩, hrest⟩
    exact heq ▸ allows_before_append ⟨n, IsInputs.single hvs (hbegins heq)⟩ hrest

/-- Inputs of a pipe that begin with a bracket are a list, or an expression whose first operand is
in brackets. -/
theorem allows_inputs_bracket {l : String} :
    (before AnyInputs K).allows (⟨.leftParen, l⟩ :: ws) ↔
      (before (Items AnyExpression) (word .rightParen K)).allows ws ∨
        (before AnyExpression (word .rightParen (tail K))).allows ws := by
  have hlist : (before (Items AnyExpression) (word .rightParen K)).allows ws ↔
      (before (Bracketed (Items AnyExpression)) K).allows (⟨.leftParen, l⟩ :: ws) := by
    rw [before_bracketed, allows_word_cons, and_iff_right rfl]
  have hoperand : ∀ {L}, (before AnyExpression (word .rightParen L)).allows ws ↔
      (before (Bracketed AnyExpression) L).allows (⟨.leftParen, l⟩ :: ws) := by
    intro L
    rw [before_bracketed, allows_word_cons, and_iff_right rfl]
  rw [hlist, hoperand]
  constructor
  · rintro ⟨vs, es, rest, heq, ⟨n, hvs⟩, hrest⟩
    rw [heq]
    cases hvs with
    | single expression bare =>
      obtain ⟨w, vs, rfl, -⟩ := exists_first_of_isExpression expression
      obtain ⟨rfl, -⟩ := List.cons.inj heq
      exact absurd ⟨_, _, rfl, rfl⟩ bare
    | listed list =>
      exact .inl (allows_before_append (anyList_iff.mpr ⟨n, list⟩) hrest)
    | binary operand more =>
      rw [List.append_assoc]
      refine .inr (allows_before_append (operand.imp fun h => ⟨n, h⟩) (.inr ⟨rfl, ?_⟩))
      exact allows_before_append ⟨n, more⟩ hrest
  · rintro (⟨vs, es, rest, heq, hvs, hrest⟩ | ⟨vs, e, rest, heq, hvs, hrest | hrest⟩)
    · obtain ⟨n, list⟩ := anyList_iff.mp hvs
      exact heq ▸ allows_before_append ⟨n, IsInputs.listed list⟩ hrest
    · obtain ⟨⟨n, inside⟩⟩ := hvs
      have hitem := Items.cons inside MoreItems.nil
      rw [List.append_nil] at hitem
      exact heq ▸ allows_before_append ⟨n, IsInputs.listed (.mk hitem)⟩ hrest
    · obtain ⟨m, hvs⟩ := unlimited_bracketed.mp hvs
      obtain ⟨o, _, rfl, us, e', rest, rfl, ⟨n, hus⟩, hrest⟩ := allows_word.mp hrest
      have hbinary : IsInputs (max m n) (vs ++ ⟨.infixOp, o⟩ :: us) [.binary e o e'] :=
        .binary (hvs.imp (grows_isExpression (Nat.le_max_left ..)))
          (grows_isExpression (Nat.le_max_right ..) hus)
      have h := allows_before_append (X := AnyInputs) ⟨_, hbinary⟩ hrest
      rw [heq]
      simpa using h

/-- The four sorts of statement. -/
theorem allows_statement :
    (before AnyStatement K).allows ws ↔
      (word .percent (word .ident
          (before (Bracketed (Items IsParameter)) (word .semicolon K)))).allows ws ∨
        (word .ident (before (Bracketed (Items AnyExpression))
          (before IsCallOutputs (word .semicolon K)))).allows ws ∨
        (word .clock (before IsPeriod (before IsCounter
          (word .leftBrace (before AnyBlock (word .rightBrace K)))))).allows ws ∨
        (before AnyInputs (outlet K)).allows ws := by
  constructor
  · rintro ⟨vs, st, rest, rfl, ⟨n, hvs⟩, hrest⟩
    cases hvs with
    | group members =>
      refine .inl ⟨rfl, rfl, ?_⟩
      rw [List.append_eq, List.append_assoc]
      exact allows_before_append members ⟨rfl, hrest⟩
    | call inputs outputs =>
      refine .inr (.inl ⟨rfl, ?_⟩)
      rw [List.append_eq, List.append_assoc, List.append_assoc]
      exact allows_before_append (anyList_iff.mpr ⟨n, inputs⟩)
        (allows_before_append outputs ⟨rfl, hrest⟩)
    | pipe inputs outputs =>
      refine .inr (.inr (.inr ?_))
      rw [List.append_assoc, List.cons_append, List.append_assoc]
      exact allows_before_append ⟨n, inputs⟩
        ⟨rfl, allows_before_append outputs ⟨rfl, hrest⟩⟩
    | clock delay counter block =>
      obtain ⟨k, -, block⟩ := block
      refine .inr (.inr (.inl ⟨rfl, ?_⟩))
      rw [List.append_eq, List.cons_append, List.cons_append, List.append_assoc, List.cons_append,
        List.append_assoc]
      exact allows_before_append (X := IsPeriod) ⟨_, _, rfl, delay⟩
        (allows_before_append counter ⟨rfl, allows_before_append ⟨k, block⟩ ⟨rfl, hrest⟩⟩)
  · rintro (h | h | h | h)
    · obtain ⟨p, _, rfl, hname⟩ := allows_word.mp h
      obtain ⟨x, _, rfl, vs, ps, _, rfl, members, hend⟩ := allows_word.mp hname
      obtain ⟨s, rest, rfl, hrest⟩ := allows_word.mp hend
      have hall := allows_before_append (X := AnyStatement)
        ⟨0, .group (p := p) (x := x) (s := s) members⟩ hrest
      simpa using hall
    · obtain ⟨x, _, rfl, vs, es, _, rfl, inputs, us, os, _, rfl, outputs, hend⟩ :=
        allows_word.mp h
      obtain ⟨n, inputs⟩ := anyList_iff.mp inputs
      obtain ⟨s, rest, rfl, hrest⟩ := allows_word.mp hend
      have hall := allows_before_append (X := AnyStatement)
        ⟨n, .call (x := x) (s := s) inputs outputs⟩ hrest
      simpa using hall
    · obtain ⟨c, _, rfl, _, d, _, rfl, ⟨m, u, rfl, hd⟩, vs, r, _, rfl, counter, hopen⟩ :=
        allows_word.mp h
      obtain ⟨l, _, rfl, us, b, _, rfl, ⟨n, block⟩, hclose⟩ := allows_word.mp hopen
      obtain ⟨r, rest, rfl, hrest⟩ := allows_word.mp hclose
      have hall := allows_before_append (X := AnyStatement)
        ⟨n + 1, .clock (c := c) (l := l) (r := r) hd counter ⟨n, rfl, block⟩⟩ hrest
      simpa using hall
    · obtain ⟨vs, es, _, rfl, ⟨n, inputs⟩, houtlet⟩ := h
      obtain ⟨a, _, rfl, us, os, _, rfl, outputs, hend⟩ := allows_word.mp houtlet
      obtain ⟨s, rest, rfl, hrest⟩ := allows_word.mp hend
      have hall := allows_before_append (X := AnyStatement)
        ⟨n, .pipe (a := a) (s := s) inputs outputs⟩ hrest
      simpa using hall

/-- What may follow the first word of a statement. -/
theorem allows_statement_cons :
    (before AnyStatement K).allows (w :: ws) ↔
      match w.kind with
      | .percent => (word .ident ((word .leftParen (before (Items IsParameter)
          (word .rightParen (word .semicolon K)))).or (tail (outlet K)))).allows ws
      | .clock => (before IsPeriod (before IsCounter
          (word .leftBrace (before AnyBlock (word .rightBrace K))))).allows ws
      | .ident => ((word .leftParen (before (Items AnyExpression) (word .rightParen
          (before IsCallOutputs (word .semicolon K))))).or (tail (outlet K))).allows ws
      | .number | .prefixOp => (before AnyExpression (outlet K)).allows (w :: ws)
      | .leftParen => ((before (Items AnyExpression) (word .rightParen (outlet K))).or
          (before AnyExpression (word .rightParen (tail (outlet K))))).allows ws
      | _ => False := by
  obtain ⟨k, l⟩ := w
  rw [allows_statement]
  by_cases hk : k = .leftParen
  · subst hk
    rw [allows_inputs_bracket]
    simp
  · rw [allows_inputs_bare hk]
    cases k <;> simp_all [allows_expression_cons, before_bracketed, word_or]

/-! ## Programs -/

/-- The registers of a circuit, or none. -/
theorem before_isRegisters :
    before IsRegisters K = K.or (before (Bracketed (Items IsRegister))
      (word .arrow (before (Bracketed (Items IsRegister)) K))) := by
  ext ws
  constructor
  · rintro ⟨vs, r, rest, rfl, _ | ⟨left, right⟩, hrest⟩
    · exact .inl hrest
    · rw [List.append_assoc]
      exact .inr (allows_before_append left ⟨rfl, allows_before_append right hrest⟩)
  · rintro (h | ⟨vs, inputs, _, rfl, left, h⟩)
    · exact ⟨[], _, ws, rfl, .none, h⟩
    · obtain ⟨a, _, rfl, us, outputs, rest, rfl, right, hrest⟩ := allows_word.mp h
      have hall := allows_before_append (IsRegisters.listed (a := a) left right) hrest
      simpa using hall

instance : Occurs AnyItem := ⟨_, _, 0, .byPath (i := "") (v := "") (s := "")⟩

/-- What may follow the first word of a circuit or a reference. -/
theorem allows_item_cons :
    (before AnyItem K).allows (w :: ws) ↔
      match w.kind with
      | .circuit => (word .ident (before IsRegisters
          (word .leftBrace (before AnyBlock (word .rightBrace K))))).allows ws
      | .inclusion => ((word .string (word .semicolon K)).or
          (word .name (word .string (word .semicolon K)))).allows ws
      | _ => False := by
  obtain ⟨k, l⟩ := w
  constructor
  · rintro ⟨vs, i, rest, heq, ⟨n, hvs⟩, hrest⟩
    cases hvs with
    | circuit registers block =>
      simp only [List.cons_append, List.append_assoc, List.cons.injEq, Word.mk.injEq] at heq
      obtain ⟨⟨rfl, rfl⟩, rfl⟩ := heq
      exact ⟨rfl, allows_before_append registers
        ⟨rfl, allows_before_append ⟨n, block⟩ ⟨rfl, hrest⟩⟩⟩
    | byPath =>
      simp only [List.cons_append, List.cons.injEq, Word.mk.injEq] at heq
      obtain ⟨⟨rfl, rfl⟩, rfl⟩ := heq
      exact .inl ⟨rfl, rfl, hrest⟩
    | byName =>
      simp only [List.cons_append, List.cons.injEq, Word.mk.injEq] at heq
      obtain ⟨⟨rfl, rfl⟩, rfl⟩ := heq
      exact .inr ⟨rfl, rfl, rfl, hrest⟩
  · intro h
    cases k with
    | circuit =>
      obtain ⟨x, _, rfl, vs, ⟨inputs, outputs⟩, _, rfl, registers, hopen⟩ := allows_word.mp h
      obtain ⟨b, _, rfl, us, body, _, rfl, ⟨n, block⟩, hclose⟩ := allows_word.mp hopen
      obtain ⟨r, rest, rfl, hrest⟩ := allows_word.mp hclose
      have hall := allows_before_append (X := AnyItem)
        ⟨n, .circuit (c := l) (x := x) (l := b) (r := r) registers block⟩ hrest
      simpa using hall
    | inclusion =>
      rcases h with h | h
      · obtain ⟨v, _, rfl, hend⟩ := allows_word.mp h
        obtain ⟨s, rest, rfl, hrest⟩ := allows_word.mp hend
        exact allows_before_append (X := AnyItem) ⟨0, .byPath (i := l) (v := v) (s := s)⟩ hrest
      · obtain ⟨x, _, rfl, hstring⟩ := allows_word.mp h
        obtain ⟨v, _, rfl, hend⟩ := allows_word.mp hstring
        obtain ⟨s, rest, rfl, hrest⟩ := allows_word.mp hend
        exact allows_before_append (X := AnyItem)
          ⟨0, .byName (i := l) (n := x) (v := v) (s := s)⟩ hrest
    | _ => exact h.elim

/-- The word of the end token. -/
def endWord : Word := ⟨.endOfText, ""⟩

/-- Nothing but the end of the text. -/
def finish : Prospect := ⟨(· = [endWord]), _, rfl⟩

/-- A list of words is a sentence if it is a program, however deep, with the end of the text behind
it. -/
def Sentence (ws : List Word) : Prop :=
  ∃ n vs p, IsProgram n vs p ∧ ws = vs ++ [endWord]

theorem allows_sentence :
    (before IsProgramName (before (Many AnyItem) finish)).allows ws ↔ Sentence ws := by
  constructor
  · rintro ⟨vs, x, _, rfl, named, us, is, _, rfl, content, rfl⟩
    obtain ⟨n, content⟩ := (unlimited_many grows_isItem).mp content
    exact ⟨n, vs ++ us, _, .mk named content, by simp⟩
  · rintro ⟨n, _, _, ⟨named, content⟩, rfl⟩
    rw [List.append_assoc]
    exact allows_before_append named
      (allows_before_append ((unlimited_many grows_isItem).mpr ⟨n, content⟩) rfl)

/-- All that may ever be read. -/
def sentences : Prospect :=
  ⟨Sentence, (before IsProgramName (before (Many AnyItem) finish)).exists_allowed.imp
    fun _ => allows_sentence.mp⟩

theorem before_isProgramName :
    before IsProgramName K =
      K.or (word .name (word .colon (word .string (word .semicolon K)))) := by
  ext ws
  constructor
  · rintro ⟨vs, x, rest, rfl, ⟨⟩ | ⟨⟩, hrest⟩
    · exact .inl hrest
    · exact .inr ⟨rfl, rfl, rfl, rfl, hrest⟩
  · rintro (h | h)
    · exact ⟨[], _, ws, rfl, .none, h⟩
    · obtain ⟨n, _, rfl, hcolon⟩ := allows_word.mp h
      obtain ⟨c, _, rfl, hstring⟩ := allows_word.mp hcolon
      obtain ⟨v, _, rfl, hend⟩ := allows_word.mp hstring
      obtain ⟨s, rest, rfl, hrest⟩ := allows_word.mp hend
      exact allows_before_append (IsProgramName.named (n := n) (c := c) (v := v) (s := s)) hrest

end Grammar
end CircuitText
