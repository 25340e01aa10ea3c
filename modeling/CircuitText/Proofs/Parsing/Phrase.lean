import CircuitText.Grammar.Program

/-!
# The grammar of the language

Productions read a text from left to right and decide by the token ahead.  Here the language is
described without any reading.  A *phrase* relates lists of words to what they say, and each rule of
the grammar is a constructor that puts the words of its parts one behind the other; a word is a
token without its place.  Nothing looks ahead and nothing is tried in order.

Two things need care.

A prefix operator takes the longest possible rest of the expression as its operand.  An operand
that begins with a prefix operator therefore ends where its expression ends, and the rule for infix
operators excludes it on the left.

What is nested is one level deeper.  `IsExpression n` and `IsBlock n` describe what may open `n`
levels, each level being a bracket around an operand, a prefix operator or the body of a clock;
inside it there is one level less.  The brackets of lists and of a pipe that begins with a bracket
open no level, and neither do the braces of a circuit.

* `Many`, `Items`, `Bracketed` --- repetition, lists, brackets;
* `IsExpression`, `IsStatement`, `IsBlock`, `IsProgram` --- the rules;
* `Delay.IsWritten` --- which number and unit make which delay;
* `legal_isProgram` --- programs have no illegal words.
-/

namespace CircuitText

/-- A token without its place. -/
structure Word where
  kind : Kind
  literal : String
  deriving DecidableEq, Repr

/-- What a token is, wherever it stands. -/
def Token.word (t : Token) : Word := ⟨t.kind, t.literal⟩

@[simp] theorem Token.kind_word (t : Token) : t.word.kind = t.kind := rfl

@[simp] theorem Token.literal_word (t : Token) : t.word.literal = t.literal := rfl

/-- The words of a text, without the end token. -/
def Lexer.words (text : List Char) (file : String) : List Word :=
  (Lexer.tokenize text file).map (·.word)

namespace Delay

/-- A number that is written as a whole: plus signs, digits, and perhaps a fraction of zeros.  The
number of a token has at most one sign, and no point without a digit behind it. -/
inductive IsAmount : List Char → Nat → Prop
  | whole {signs digits : List Char} (hsigns : ∀ c ∈ signs, c = '+') (hne : digits ≠ [])
      (hdigits : ∀ c ∈ digits, c.isDigit = true) :
      IsAmount (signs ++ digits) (Nat.ofDigitChars 10 digits 0)
  | fraction {signs digits zeros : List Char} (hsigns : ∀ c ∈ signs, c = '+') (hne : digits ≠ [])
      (hdigits : ∀ c ∈ digits, c.isDigit = true) (hzeros : ∀ c ∈ zeros, c = '0') :
      IsAmount (signs ++ (digits ++ '.' :: zeros)) (Nat.ofDigitChars 10 digits 0)

/-- The delay `d` is written as a number and a unit: a whole amount below `2 ^ 64` of one of the
five units that may be written. -/
def IsWritten (number unit : String) (d : Delay) : Prop :=
  ∃ n u, IsAmount number.toList n ∧ n < amountLimit ∧ u ∈ TimeUnit.written ∧ u.symbol = unit ∧
    d.nanoseconds = n * u.size

end Delay

namespace Grammar

variable {α : Type}

/-- A sort of phrase: which words it is made of, and what they say. -/
abbrev Phrase (α : Type) : Type := List Word → α → Prop

/-- The words begin with one of the given kind. -/
def Begins (k : Kind) (ws : List Word) : Prop := ∃ w vs, ws = w :: vs ∧ w.kind = k

/-! ## Repetition, lists and brackets -/

/-- Any number of phrases, one behind the other. -/
inductive Many (X : Phrase α) : Phrase (List α)
  | nil : Many X [] []
  | cons {ws vs : List Word} {a : α} {as : List α} (first : X ws a) (more : Many X vs as) :
      Many X (ws ++ vs) (a :: as)

theorem Many.append {X : Phrase α} {ws vs : List Word} {as bs : List α} (h : Many X ws as)
    (h' : Many X vs bs) : Many X (ws ++ vs) (as ++ bs) := by
  induction h with
  | nil => exact h'
  | cons first more ih =>
    rw [List.append_assoc]
    exact .cons first ih

/-- What may follow an item of a list: more items, each after a comma, and perhaps a comma at the
end. -/
inductive MoreItems (X : Phrase α) : Phrase (List α)
  | nil : MoreItems X [] []
  | comma {c : String} : MoreItems X [⟨.comma, c⟩] []
  | cons {c : String} {ws vs : List Word} {a : α} {as : List α} (item : X ws a)
      (more : MoreItems X vs as) : MoreItems X (⟨.comma, c⟩ :: (ws ++ vs)) (a :: as)

/-- The items of a list with commas between them. -/
inductive Items (X : Phrase α) : Phrase (List α)
  | nil : Items X [] []
  | cons {ws vs : List Word} {a : α} {as : List α} (item : X ws a) (more : MoreItems X vs as) :
      Items X (ws ++ vs) (a :: as)

/-- A phrase between round brackets. -/
inductive Bracketed (X : Phrase α) : Phrase α
  | mk {l r : String} {ws : List Word} {a : α} (inside : X ws a) :
      Bracketed X (⟨.leftParen, l⟩ :: (ws ++ [⟨.rightParen, r⟩])) a

/-! ## Names and parameters -/

/-- The name of a register. -/
inductive IsRegister : Phrase String
  | mk {x : String} : IsRegister [⟨.ident, x⟩] x

/-- A register, or a group after a percent sign. -/
inductive IsParameter : Phrase Parameter
  | register {x : String} : IsParameter [⟨.ident, x⟩] (.register x)
  | group {p x : String} : IsParameter [⟨.percent, p⟩, ⟨.ident, x⟩] (.group x)

/-! ## Expressions -/

/-- An operand; `inner` are the expressions one level deeper. -/
inductive OperandOver (inner : Phrase Expression) : Phrase Expression
  | register {x : String} : OperandOver inner [⟨.ident, x⟩] (.register x)
  | zero : OperandOver inner [⟨.number, "0"⟩] (.bit false)
  | one : OperandOver inner [⟨.number, "1"⟩] (.bit true)
  | group {p x : String} : OperandOver inner [⟨.percent, p⟩, ⟨.ident, x⟩] (.group x)
  | bracketed {ws : List Word} {e : Expression} (inside : Bracketed inner ws e) :
      OperandOver inner ws e
  | unary {o : String} {ws : List Word} {e : Expression} (operand : inner ws e) :
      OperandOver inner (⟨.prefixOp, o⟩ :: ws) (.unary o e)

/-- An expression; `inner` are the expressions one level deeper.  An infix operator takes all that
follows it as its right operand. -/
inductive ExpressionOver (inner : Phrase Expression) : Phrase Expression
  | operand {ws : List Word} {e : Expression} (operand : OperandOver inner ws e) :
      ExpressionOver inner ws e
  | binary {o : String} {ws vs : List Word} {left right : Expression}
      (operand : OperandOver inner ws left) (closed : ¬ Begins .prefixOp ws)
      (rest : ExpressionOver inner vs right) :
      ExpressionOver inner (ws ++ ⟨.infixOp, o⟩ :: vs) (.binary left o right)

/-- An expression that may open so many levels. -/
def IsExpression : (levels : Nat) → Phrase Expression
  | 0 => ExpressionOver fun _ _ => False
  | levels + 1 => ExpressionOver (IsExpression levels)

/-- What is one level deeper, if there is a level left. -/
def Deeper (X : Nat → Phrase α) (levels : Nat) : Phrase α := fun ws a =>
  ∃ fewer, levels = fewer + 1 ∧ X fewer ws a

theorem isExpression_eq (levels : Nat) :
    IsExpression levels = ExpressionOver (Deeper IsExpression levels) := by
  cases levels with
  | zero =>
    have h : Deeper IsExpression 0 = fun _ _ => False := by
      funext ws e
      simp [Deeper]
    rw [h, IsExpression]
  | succ levels =>
    have h : Deeper IsExpression (levels + 1) = IsExpression levels := by
      funext ws e
      simp [Deeper]
    rw [h, IsExpression]

/-- The kinds of word that an operand may begin with. -/
def startsOperand : Kind → Bool
  | .ident | .number | .percent | .leftParen | .prefixOp => true
  | _ => false

theorem exists_first_of_operandOver {inner : Phrase Expression} {ws : List Word} {e : Expression}
    (h : OperandOver inner ws e) : ∃ w vs, ws = w :: vs ∧ startsOperand w.kind = true := by
  cases h with
  | bracketed inside =>
    cases inside
    exact ⟨_, _, rfl, rfl⟩
  | _ => exact ⟨_, _, rfl, rfl⟩

/-- An expression begins as its first operand does. -/
theorem exists_first_of_isExpression {levels : Nat} {ws : List Word} {e : Expression}
    (h : IsExpression levels ws e) : ∃ w vs, ws = w :: vs ∧ startsOperand w.kind = true := by
  rw [isExpression_eq] at h
  cases h with
  | operand operand => exact exists_first_of_operandOver operand
  | binary operand =>
    obtain ⟨w, vs, rfl, hw⟩ := exists_first_of_operandOver operand
    exact ⟨w, _, rfl, hw⟩

/-! ## Statements -/

/-- The outputs of a pipe: a parameter, or a list of parameters. -/
inductive IsOutputs : Phrase (List Parameter)
  | single {ws : List Word} {o : Parameter} (parameter : IsParameter ws o) : IsOutputs ws [o]
  | listed {ws : List Word} {os : List Parameter} (list : Bracketed (Items IsParameter) ws os) :
      IsOutputs ws os

/-- The outputs of a call, which may have none. -/
inductive IsCallOutputs : Phrase (List Parameter)
  | none : IsCallOutputs [] []
  | listed {a : String} {ws : List Word} {os : List Parameter}
      (list : Bracketed (Items IsParameter) ws os) : IsCallOutputs (⟨.arrow, a⟩ :: ws) os

/-- The inputs of a pipe: an expression that does not begin with a bracket, a list of expressions,
or an expression whose first operand is in brackets.  The bracket at the front opens no level. -/
inductive IsInputs (levels : Nat) : Phrase (List Expression)
  | single {ws : List Word} {e : Expression} (expression : IsExpression levels ws e)
      (bare : ¬ Begins .leftParen ws) : IsInputs levels ws [e]
  | listed {ws : List Word} {es : List Expression}
      (list : Bracketed (Items (IsExpression levels)) ws es) : IsInputs levels ws es
  | binary {o : String} {ws vs : List Word} {left right : Expression}
      (operand : Bracketed (IsExpression levels) ws left) (rest : IsExpression levels vs right) :
      IsInputs levels (ws ++ ⟨.infixOp, o⟩ :: vs) [.binary left o right]

/-- The group that counts the rounds of a clock, which may have none. -/
inductive IsCounter : Phrase (Option String)
  | none : IsCounter [] none
  | group {p x : String} : IsCounter [⟨.percent, p⟩, ⟨.ident, x⟩] (some x)

/-- A statement whose expressions may open so many levels; `body` are the bodies of clocks. -/
inductive StatementOver (levels : Nat) (body : Phrase (List Statement)) : Phrase Statement
  | group {p x s : String} {ws : List Word} {ps : List Parameter}
      (members : Bracketed (Items IsParameter) ws ps) :
      StatementOver levels body (⟨.percent, p⟩ :: ⟨.ident, x⟩ :: (ws ++ [⟨.semicolon, s⟩]))
        (.group x ps)
  | call {x s : String} {ws vs : List Word} {es : List Expression} {os : List Parameter}
      (inputs : Bracketed (Items (IsExpression levels)) ws es) (outputs : IsCallOutputs vs os) :
      StatementOver levels body (⟨.ident, x⟩ :: (ws ++ (vs ++ [⟨.semicolon, s⟩]))) (.call x es os)
  | pipe {a s : String} {ws vs : List Word} {es : List Expression} {os : List Parameter}
      (inputs : IsInputs levels ws es) (outputs : IsOutputs vs os) :
      StatementOver levels body (ws ++ ⟨.arrow, a⟩ :: (vs ++ [⟨.semicolon, s⟩])) (.pipe es os)
  | clock {c n u l r : String} {d : Delay} {rounds : Option String} {ws vs : List Word}
      {b : List Statement} (delay : Delay.IsWritten n u d) (counter : IsCounter ws rounds)
      (block : body vs b) :
      StatementOver levels body
        (⟨.clock, c⟩ :: ⟨.number, n⟩ :: ⟨.ident, u⟩ ::
          (ws ++ ⟨.leftBrace, l⟩ :: (vs ++ [⟨.rightBrace, r⟩])))
        (.clock d rounds b)

/-- The statements of a block that may open so many levels. -/
def IsBlock : (levels : Nat) → Phrase (List Statement)
  | 0 => Many (StatementOver 0 fun _ _ => False)
  | levels + 1 => Many (StatementOver (levels + 1) (IsBlock levels))

/-- A statement that may open so many levels. -/
abbrev IsStatement (levels : Nat) : Phrase Statement :=
  StatementOver levels (Deeper IsBlock levels)

theorem isBlock_eq (levels : Nat) : IsBlock levels = Many (IsStatement levels) := by
  cases levels with
  | zero =>
    have h : Deeper IsBlock 0 = fun _ _ => False := by
      funext ws b
      simp [Deeper]
    rw [IsBlock, IsStatement, h]
  | succ levels =>
    have h : Deeper IsBlock (levels + 1) = IsBlock levels := by
      funext ws b
      simp [Deeper]
    rw [IsBlock, IsStatement, h]

/-! ## Programs -/

/-- The input and output registers of a circuit, which may have none. -/
inductive IsRegisters : Phrase (List String × List String)
  | none : IsRegisters [] ([], [])
  | listed {a : String} {ws vs : List Word} {inputs outputs : List String}
      (left : Bracketed (Items IsRegister) ws inputs)
      (right : Bracketed (Items IsRegister) vs outputs) :
      IsRegisters (ws ++ ⟨.arrow, a⟩ :: vs) (inputs, outputs)

/-- A circuit, or a reference to another text. -/
inductive IsItem (levels : Nat) : Phrase Item
  | circuit {c x l r : String} {ws vs : List Word} {inputs outputs : List String}
      {b : List Statement} (registers : IsRegisters ws (inputs, outputs))
      (block : IsBlock levels vs b) :
      IsItem levels
        (⟨.circuit, c⟩ :: ⟨.ident, x⟩ :: (ws ++ ⟨.leftBrace, l⟩ :: (vs ++ [⟨.rightBrace, r⟩])))
        (.circuit ⟨x, inputs, outputs, b⟩)
  | byPath {i v s : String} :
      IsItem levels [⟨.inclusion, i⟩, ⟨.string, v⟩, ⟨.semicolon, s⟩] (.inclusion ⟨false, v⟩)
  | byName {i n v s : String} :
      IsItem levels [⟨.inclusion, i⟩, ⟨.name, n⟩, ⟨.string, v⟩, ⟨.semicolon, s⟩]
        (.inclusion ⟨true, v⟩)

/-- The name of a program, which may be left out. -/
inductive IsProgramName : Phrase String
  | none : IsProgramName [] Program.defaultName
  | named {n c v s : String} :
      IsProgramName [⟨.name, n⟩, ⟨.colon, c⟩, ⟨.string, v⟩, ⟨.semicolon, s⟩] v

/-- A program whose circuits may open so many levels. -/
inductive IsProgram (levels : Nat) : Phrase Program
  | mk {ws vs : List Word} {name : String} {items : List Item} (named : IsProgramName ws name)
      (content : Many (IsItem levels) vs items) :
      IsProgram levels (ws ++ vs)
        ⟨name, items.filterMap (·.inclusion?), items.filterMap (·.circuit?)⟩

/-! ## Illegal words

No rule has a use for an illegal word. -/

/-- A phrase of this sort has no illegal word. -/
def Legal (X : Phrase α) : Prop := ∀ ws a, X ws a → ∀ w ∈ ws, w.kind ≠ .illegal

section Legal

variable {X : Phrase α}

theorem legal_many (h : Legal X) : Legal (Many X) := by
  intro ws as hmany
  induction hmany with
  | nil => simp
  | cons first more ih => exact List.forall_mem_append.mpr ⟨h _ _ first, ih⟩

theorem legal_items (h : Legal X) : Legal (Items X) := by
  have hmore : Legal (MoreItems X) := by
    intro ws as hmore
    induction hmore with
    | nil => simp
    | comma => simp
    | cons item more ih => simpa [or_imp, forall_and] using ⟨h _ _ item, ih⟩
  rintro ws as (_ | ⟨item, more⟩)
  · simp
  · exact List.forall_mem_append.mpr ⟨h _ _ item, hmore _ _ more⟩

theorem legal_bracketed (h : Legal X) : Legal (Bracketed X) := by
  rintro ws a ⟨inside⟩
  simpa [or_imp, forall_and] using h _ _ inside

theorem legal_isRegister : Legal IsRegister := by
  rintro ws x ⟨⟩
  simp

theorem legal_isParameter : Legal IsParameter := by
  rintro ws p (_ | _) <;> simp

theorem legal_expressionOver {inner : Phrase Expression} (h : Legal inner) :
    Legal (ExpressionOver inner) := by
  have hoperand : Legal (OperandOver inner) := by
    intro ws e hoperand
    cases hoperand with
    | bracketed inside => exact legal_bracketed h _ _ inside
    | unary operand => simpa using h _ _ operand
    | _ => simp
  intro ws e hws
  induction hws with
  | operand operand => exact hoperand _ _ operand
  | binary operand closed rest ih => simpa [or_imp, forall_and] using ⟨hoperand _ _ operand, ih⟩

theorem legal_isExpression (levels : Nat) : Legal (IsExpression levels) := by
  induction levels with
  | zero => exact legal_expressionOver fun _ _ h => h.elim
  | succ levels ih => exact legal_expressionOver ih

theorem legal_isOutputs : Legal IsOutputs := by
  rintro ws os (parameter | list)
  · exact legal_isParameter _ _ parameter
  · exact legal_bracketed (legal_items legal_isParameter) _ _ list

theorem legal_isCallOutputs : Legal IsCallOutputs := by
  rintro ws os (_ | list)
  · simp
  · simpa using legal_bracketed (legal_items legal_isParameter) _ _ list

theorem legal_isInputs (levels : Nat) : Legal (IsInputs levels) := by
  intro ws es hws
  have hlegal := legal_isExpression levels
  cases hws with
  | single expression => exact hlegal _ _ expression
  | listed list => exact legal_bracketed (legal_items hlegal) _ _ list
  | binary operand rest =>
    simpa [or_imp, forall_and] using ⟨legal_bracketed hlegal _ _ operand, hlegal _ _ rest⟩

theorem legal_isCounter : Legal IsCounter := by
  rintro ws c (_ | _) <;> simp

theorem legal_statementOver {levels : Nat} {body : Phrase (List Statement)} (h : Legal body) :
    Legal (StatementOver levels body) := by
  intro ws st hws
  have hparameters := legal_bracketed (legal_items legal_isParameter)
  have hexpressions := legal_bracketed (legal_items (legal_isExpression levels))
  cases hws with
  | group members => simpa [or_imp, forall_and] using hparameters _ _ members
  | call inputs outputs =>
    simpa [or_imp, forall_and] using
      ⟨hexpressions _ _ inputs, legal_isCallOutputs _ _ outputs⟩
  | pipe inputs outputs =>
    simpa [or_imp, forall_and] using
      ⟨legal_isInputs levels _ _ inputs, legal_isOutputs _ _ outputs⟩
  | clock delay counter block =>
    simpa [or_imp, forall_and] using ⟨legal_isCounter _ _ counter, h _ _ block⟩

theorem legal_isBlock (levels : Nat) : Legal (IsBlock levels) := by
  induction levels with
  | zero => exact legal_many (legal_statementOver fun _ _ h => h.elim)
  | succ levels ih => exact legal_many (legal_statementOver ih)

theorem legal_isRegisters : Legal IsRegisters := by
  rintro ws r (_ | ⟨left, right⟩)
  · simp
  · have hregisters := legal_bracketed (legal_items legal_isRegister)
    simpa [or_imp, forall_and] using ⟨hregisters _ _ left, hregisters _ _ right⟩

theorem legal_isItem (levels : Nat) : Legal (IsItem levels) := by
  rintro ws i (⟨registers, block⟩ | _ | _)
  · simpa [or_imp, forall_and] using
      ⟨legal_isRegisters _ _ registers, legal_isBlock levels _ _ block⟩
  · simp
  · simp

theorem legal_isProgram (levels : Nat) : Legal (IsProgram levels) := by
  rintro ws p ⟨named, content⟩
  have hnamed : ∀ {vs x}, IsProgramName vs x → ∀ w ∈ vs, w.kind ≠ .illegal := by
    rintro vs x (_ | _) <;> simp
  exact List.forall_mem_append.mpr ⟨hnamed named, legal_many (legal_isItem levels) _ _ content⟩

end Legal

end Grammar
end CircuitText
