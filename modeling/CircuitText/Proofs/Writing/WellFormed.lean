import CircuitText.Proofs.Lexing.Spelling
import CircuitText.Proofs.Parsing.Program
import CircuitText.Proofs.Writing.Escape

/-!
# Well-formed programs

A program that is read from a text is made of what can be written: its names are names and not
keywords, its operators are the eight there are, its delays are amounts of time below `2 ^ 64`, and
its texts are what is left when all escapes have been read.  `Program.WellFormed` says so of every
part.

The words of a text are spelled as lexemes are (`Word.IsSpelled`), and each rule of the grammar
takes its names and operators from such words.  So the proof goes along the rules: `Says X P` says
that what spelled words of the sort `X` say has the property `P`.

* `Program.WellFormed` and its parts;
* `Word.isName_of_isSpelled` --- what is known of a word from its spelling;
* `says_isProgram`, `Program.wellFormed_of_parse` --- what is read is well-formed.
-/

namespace CircuitText

/-! ## Being well-formed -/

/-- The operators that stand before their operand. -/
def prefixOperators : List String := ["!", "¬"]

/-- The operators that stand between their operands. -/
def infixOperators : List String := ["&", "|", "^", "∧", "∨", "⊻"]

namespace Delay

/-- A delay below `2 ^ 64` nanoseconds, or a whole number below `2 ^ 64` of milliseconds or of
seconds. -/
def WellFormed (d : Delay) : Prop :=
  d.nanoseconds < amountLimit ∨
    (∃ n < amountLimit, d.nanoseconds = n * TimeUnit.millisecond.size) ∨
    ∃ n < amountLimit, d.nanoseconds = n * TimeUnit.second.size

end Delay

namespace Parameter

/-- The register or the group of a parameter. -/
def name : Parameter → String
  | .register name => name
  | .group name => name

end Parameter

namespace Expression

/-- Names are names and operators are operators. -/
inductive WellFormed : Expression → Prop
  | bit {b : Bool} : WellFormed (.bit b)
  | register {x : String} (hx : IsName x.toList) : WellFormed (.register x)
  | group {x : String} (hx : IsName x.toList) : WellFormed (.group x)
  | unary {o : String} {e : Expression} (ho : o ∈ prefixOperators) (he : WellFormed e) :
      WellFormed (.unary o e)
  | binary {o : String} {left right : Expression} (hleft : WellFormed left)
      (ho : o ∈ infixOperators) (hright : WellFormed right) : WellFormed (.binary left o right)

end Expression

namespace Statement

/-- Names are names, and expressions, delays and bodies are well-formed. -/
inductive WellFormed : Statement → Prop
  | group {x : String} {ps : List Parameter} (hx : IsName x.toList)
      (hps : ∀ p ∈ ps, IsName p.name.toList) : WellFormed (.group x ps)
  | call {x : String} {es : List Expression} {os : List Parameter} (hx : IsName x.toList)
      (hes : ∀ e ∈ es, e.WellFormed) (hos : ∀ o ∈ os, IsName o.name.toList) :
      WellFormed (.call x es os)
  | pipe {es : List Expression} {os : List Parameter} (hes : ∀ e ∈ es, e.WellFormed)
      (hos : ∀ o ∈ os, IsName o.name.toList) : WellFormed (.pipe es os)
  | clock {d : Delay} {c : Option String} {b : List Statement} (hd : d.WellFormed)
      (hc : ∀ x ∈ c, IsName x.toList) (hb : ∀ s ∈ b, WellFormed s) : WellFormed (.clock d c b)

end Statement

/-- Names are names, and the statements are well-formed. -/
structure Circuit.WellFormed (c : Circuit) : Prop where
  name : IsName c.name.toList
  inputs : ∀ x ∈ c.inputs, IsName x.toList
  outputs : ∀ x ∈ c.outputs, IsName x.toList
  body : ∀ s ∈ c.body, s.WellFormed

/-- The texts have been read, and the circuits are well-formed. -/
structure Program.WellFormed (p : Program) : Prop where
  name : Text.IsRead p.name.toList
  inclusions : ∀ i ∈ p.inclusions, Text.IsRead i.value.toList
  circuits : ∀ c ∈ p.circuits, c.WellFormed

/-! ## What spelled words say -/

namespace Word

theorem isName_of_isSpelled {x : String} (h : IsSpelled ⟨.ident, x⟩) : IsName x.toList :=
  h.elim fun _ => Lexeme.Spells.isName

theorem mem_prefixOperators_of_isSpelled {x : String} (h : IsSpelled ⟨.prefixOp, x⟩) :
    x ∈ prefixOperators := by
  obtain ⟨text, h⟩ := h
  simpa [prefixOperators, ← String.toList_inj] using h.prefixOp_cases

theorem mem_infixOperators_of_isSpelled {x : String} (h : IsSpelled ⟨.infixOp, x⟩) :
    x ∈ infixOperators := by
  obtain ⟨text, h⟩ := h
  simpa [infixOperators, ← String.toList_inj] using h.infixOp_cases

end Word

/-- An amount of a unit of so many seconds is below the bound just when the seconds are. -/
theorem Delay.seconds_lt_amountLimit {n k : Nat}
    (h : n * (k * TimeUnit.second.size) < delayLimit) : n * k < amountLimit := by
  rw [← Nat.mul_assoc] at h
  exact Nat.lt_of_mul_lt_mul_right h

/-- A number and a unit make a well-formed delay, since minutes and hours are whole seconds. -/
theorem Delay.wellFormed_of_isWritten {number unit : String} {d : Delay}
    (h : IsWritten number unit d) : d.WellFormed := by
  obtain ⟨n, u, -, hn, hu, -, hd⟩ := h
  have hlimit := d.lt_limit
  rw [hd] at hlimit
  unfold WellFormed
  rw [hd]
  cases u with
  | nanosecond => exact .inl (by simpa [TimeUnit.size] using hn)
  | millisecond => exact .inr (.inl ⟨n, hn, rfl⟩)
  | second => exact .inr (.inr ⟨n, hn, rfl⟩)
  | microsecond => exact absurd hu (by decide)
  | minute =>
    exact .inr (.inr ⟨n * 60, seconds_lt_amountLimit hlimit,
      (Nat.mul_assoc n 60 TimeUnit.second.size).symm⟩)
  | hour =>
    exact .inr (.inr ⟨n * 3600, seconds_lt_amountLimit hlimit,
      (Nat.mul_assoc n 3600 TimeUnit.second.size).symm⟩)

/-! ## What the rules say -/

namespace Grammar

variable {α : Type}

/-- What spelled words of the sort `X` say has the property `P`. -/
def Says (X : Phrase α) (P : α → Prop) : Prop :=
  ∀ ws a, X ws a → (∀ w ∈ ws, w.IsSpelled) → P a

section Lists

variable {X : Phrase α} {P : α → Prop}

theorem says_many (h : Says X P) : Says (Many X) fun as => ∀ a ∈ as, P a := by
  intro ws as hmany hws
  induction hmany with
  | nil => simp
  | cons first more ih =>
    obtain ⟨hfirst, hmore⟩ := List.forall_mem_append.mp hws
    exact List.forall_mem_cons.mpr ⟨h _ _ first hfirst, ih hmore⟩

theorem says_items (h : Says X P) : Says (Items X) fun as => ∀ a ∈ as, P a := by
  have hmore : Says (MoreItems X) fun as => ∀ a ∈ as, P a := by
    intro ws as hmore hws
    induction hmore with
    | nil => simp
    | comma => simp
    | cons item more ih =>
      obtain ⟨hitem, hrest⟩ := List.forall_mem_append.mp (List.forall_mem_cons.mp hws).2
      exact List.forall_mem_cons.mpr ⟨h _ _ item hitem, ih hrest⟩
  rintro ws as (_ | ⟨item, more⟩) hws
  · simp
  · obtain ⟨hitem, hrest⟩ := List.forall_mem_append.mp hws
    exact List.forall_mem_cons.mpr ⟨h _ _ item hitem, hmore _ _ more hrest⟩

theorem says_bracketed (h : Says X P) : Says (Bracketed X) P := by
  rintro ws a ⟨inside⟩ hws
  exact h _ _ inside (List.forall_mem_append.mp (List.forall_mem_cons.mp hws).2).1

end Lists

theorem says_isRegister : Says IsRegister fun x => IsName x.toList := by
  rintro ws x ⟨⟩ hws
  exact Word.isName_of_isSpelled (List.forall_mem_singleton.mp hws)

theorem says_isParameter : Says IsParameter fun p => IsName p.name.toList := by
  rintro ws p (_ | _) hws
  · exact Word.isName_of_isSpelled (List.forall_mem_singleton.mp hws)
  · obtain ⟨-, hx⟩ := List.forall_mem_cons.mp hws
    exact Word.isName_of_isSpelled (List.forall_mem_singleton.mp hx)

theorem says_expressionOver {inner : Phrase Expression} (h : Says inner (·.WellFormed)) :
    Says (ExpressionOver inner) (·.WellFormed) := by
  have hoperand : Says (OperandOver inner) (·.WellFormed) := by
    intro ws e hX hws
    cases hX with
    | register => exact .register (Word.isName_of_isSpelled (List.forall_mem_singleton.mp hws))
    | zero => exact .bit
    | one => exact .bit
    | group =>
      obtain ⟨-, hx⟩ := List.forall_mem_cons.mp hws
      exact .group (Word.isName_of_isSpelled (List.forall_mem_singleton.mp hx))
    | bracketed inside => exact says_bracketed h _ _ inside hws
    | unary operand =>
      obtain ⟨ho, hrest⟩ := List.forall_mem_cons.mp hws
      exact .unary (Word.mem_prefixOperators_of_isSpelled ho) (h _ _ operand hrest)
  intro ws e hX hws
  induction hX with
  | operand operand => exact hoperand _ _ operand hws
  | binary operand closed rest ih =>
    obtain ⟨hleft, hrest⟩ := List.forall_mem_append.mp hws
    obtain ⟨ho, hright⟩ := List.forall_mem_cons.mp hrest
    exact .binary (hoperand _ _ operand hleft) (Word.mem_infixOperators_of_isSpelled ho)
      (ih hright)

theorem says_isExpression (levels : Nat) : Says (IsExpression levels) (·.WellFormed) := by
  induction levels with
  | zero => exact says_expressionOver fun _ _ h => h.elim
  | succ levels ih => exact says_expressionOver ih

theorem says_isOutputs : Says IsOutputs fun os => ∀ o ∈ os, IsName o.name.toList := by
  rintro ws os (parameter | list) hws
  · exact List.forall_mem_singleton.mpr (says_isParameter _ _ parameter hws)
  · exact says_bracketed (says_items says_isParameter) _ _ list hws

theorem says_isCallOutputs : Says IsCallOutputs fun os => ∀ o ∈ os, IsName o.name.toList := by
  rintro ws os (_ | list) hws
  · simp
  · exact says_bracketed (says_items says_isParameter) _ _ list (List.forall_mem_cons.mp hws).2

theorem says_isInputs (levels : Nat) :
    Says (IsInputs levels) fun es => ∀ e ∈ es, e.WellFormed := by
  intro ws es hX hws
  have h := says_isExpression levels
  cases hX with
  | single expression => exact List.forall_mem_singleton.mpr (h _ _ expression hws)
  | listed list => exact says_bracketed (says_items h) _ _ list hws
  | binary operand rest =>
    obtain ⟨hleft, hrest⟩ := List.forall_mem_append.mp hws
    obtain ⟨ho, hright⟩ := List.forall_mem_cons.mp hrest
    exact List.forall_mem_singleton.mpr (.binary (says_bracketed h _ _ operand hleft)
      (Word.mem_infixOperators_of_isSpelled ho) (h _ _ rest hright))

theorem says_isCounter : Says IsCounter fun c => ∀ x ∈ c, IsName x.toList := by
  rintro ws c (_ | _) hws
  · simp
  · obtain ⟨-, hx⟩ := List.forall_mem_cons.mp hws
    simpa using Word.isName_of_isSpelled (List.forall_mem_singleton.mp hx)

theorem says_statementOver {levels : Nat} {body : Phrase (List Statement)}
    (h : Says body fun b => ∀ s ∈ b, s.WellFormed) :
    Says (StatementOver levels body) (·.WellFormed) := by
  intro ws st hX hws
  cases hX with
  | group members =>
    obtain ⟨-, hx⟩ := List.forall_mem_cons.mp hws
    obtain ⟨hx, hrest⟩ := List.forall_mem_cons.mp hx
    exact .group (Word.isName_of_isSpelled hx) (says_bracketed (says_items says_isParameter) _ _
      members (List.forall_mem_append.mp hrest).1)
  | call inputs outputs =>
    obtain ⟨hx, hrest⟩ := List.forall_mem_cons.mp hws
    obtain ⟨hin, hrest⟩ := List.forall_mem_append.mp hrest
    exact .call (Word.isName_of_isSpelled hx)
      (says_bracketed (says_items (says_isExpression levels)) _ _ inputs hin)
      (says_isCallOutputs _ _ outputs (List.forall_mem_append.mp hrest).1)
  | pipe inputs outputs =>
    obtain ⟨hin, hrest⟩ := List.forall_mem_append.mp hws
    obtain ⟨-, hout⟩ := List.forall_mem_cons.mp hrest
    exact .pipe (says_isInputs levels _ _ inputs hin)
      (says_isOutputs _ _ outputs (List.forall_mem_append.mp hout).1)
  | clock delay counter block =>
    obtain ⟨hcounter, hrest⟩ := List.forall_mem_append.mp
      (List.forall_mem_cons.mp (List.forall_mem_cons.mp (List.forall_mem_cons.mp hws).2).2).2
    obtain ⟨-, hblock⟩ := List.forall_mem_cons.mp hrest
    exact .clock (Delay.wellFormed_of_isWritten delay) (says_isCounter _ _ counter hcounter)
      (h _ _ block (List.forall_mem_append.mp hblock).1)

theorem says_isBlock (levels : Nat) : Says (IsBlock levels) fun b => ∀ s ∈ b, s.WellFormed := by
  induction levels with
  | zero => exact says_many (says_statementOver fun _ _ h => h.elim)
  | succ levels ih => exact says_many (says_statementOver ih)

theorem says_isRegisters :
    Says IsRegisters fun r => (∀ x ∈ r.1, IsName x.toList) ∧ ∀ x ∈ r.2, IsName x.toList := by
  rintro ws r (_ | ⟨left, right⟩) hws
  · simp
  · obtain ⟨hleft, hrest⟩ := List.forall_mem_append.mp hws
    have h := says_bracketed (says_items says_isRegister)
    exact ⟨h _ _ left hleft, h _ _ right (List.forall_mem_cons.mp hrest).2⟩

/-- An item is a well-formed circuit, or a reference whose text has been read. -/
def Item.WellFormed : Item → Prop
  | .inclusion i => Text.IsRead i.value.toList
  | .circuit c => c.WellFormed

theorem says_isItem (levels : Nat) : Says (IsItem levels) (·.WellFormed) := by
  rintro ws i (⟨registers, block⟩ | _ | _) hws
  · obtain ⟨hx, hrest⟩ := List.forall_mem_cons.mp (List.forall_mem_cons.mp hws).2
    obtain ⟨hregisters, hrest⟩ := List.forall_mem_append.mp hrest
    obtain ⟨-, hblock⟩ := List.forall_mem_cons.mp hrest
    obtain ⟨hin, hout⟩ := says_isRegisters _ _ registers hregisters
    exact ⟨Word.isName_of_isSpelled hx, hin, hout,
      says_isBlock levels _ _ block (List.forall_mem_append.mp hblock).1⟩
  · exact Word.isRead_of_isSpelled (hws _ (by simp))
  · exact Word.isRead_of_isSpelled (hws _ (by simp))

theorem says_isProgram (levels : Nat) : Says (IsProgram levels) (·.WellFormed) := by
  rintro ws p ⟨named, content⟩ hws
  obtain ⟨hname, hitems⟩ := List.forall_mem_append.mp hws
  have hitems := says_many (says_isItem levels) _ _ content hitems
  refine ⟨?_, fun i hi => ?_, fun c hc => ?_⟩
  · cases named with
    | none =>
      show Text.IsRead Program.defaultName.toList
      exact Text.unescape_eq_self (by decide)
    | named => exact Word.isRead_of_isSpelled (hname _ (by simp))
  · obtain ⟨item, hitem, heq⟩ := List.mem_filterMap.mp hi
    cases item with
    | inclusion j =>
      obtain rfl : j = i := by simpa [Item.inclusion?] using heq
      exact hitems _ hitem
    | circuit c => simp [Item.inclusion?] at heq
  · obtain ⟨item, hitem, heq⟩ := List.mem_filterMap.mp hc
    cases item with
    | inclusion j => simp [Item.circuit?] at heq
    | circuit d =>
      obtain rfl : d = c := by simpa [Item.circuit?] using heq
      exact hitems _ hitem

end Grammar

/-- What is read from a text is well-formed. -/
theorem Program.wellFormed_of_parse {text : List Char} {file : String} {p : Program}
    (h : parse text file = .ok p) : p.WellFormed :=
  Grammar.says_isProgram _ _ _ (parse_eq_ok_iff.mp h) Lexer.isSpelled_of_mem_words

end CircuitText
