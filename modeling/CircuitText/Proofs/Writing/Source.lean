import CircuitText.Proofs.Writing.Spacing
import CircuitText.Proofs.Writing.WellFormed

/-!
# Every well-formed program is the program of a text

`Program.source` writes a program down, and reading the text gives the program back.  All lists are
written in brackets, empty ones too, every pipe and every call with an arrow, and the name of the
program first, so that nothing is left to a default.  An operand on the left of an infix operator is
put in brackets if it has an operator itself, since a prefix operator would take the infix operator
too; nothing else is.  A delay is written in nanoseconds if it can be, and in milliseconds or in
seconds otherwise.

Each bracket around an operand opens a level, as do prefix operators and clocks.  `Expression.need`
counts the levels that an expression opens when it is written in this way, and `Program.Fits` says
that no more levels are opened than the nesting limit allows.

* `Program.words`, `Program.source` --- writing a program;
* `Expression.need`, `Program.Fits` --- the levels it opens;
* `isProgram_words` --- the words are derived by the grammar;
* `Program.isWritable_words` --- and they can be written;
* `Program.parse_source` --- so the program is read back.
-/

namespace CircuitText

/-! ## The words of a program -/

namespace Word

/-- The word of a kind that always looks the same. -/
def fixed (k : Kind) : Word := ⟨k, k.render⟩

end Word

/-- Words between round brackets. -/
def bracketedWords (ws : List Word) : List Word :=
  .fixed .leftParen :: (ws ++ [.fixed .rightParen])

/-- The words of the items of a list, with commas between them. -/
def listWords {α : Type} (words : α → List Word) : List α → List Word
  | [] => []
  | a :: as => words a ++ as.flatMap fun b => .fixed .comma :: words b

namespace Parameter

/-- The words of a parameter. -/
def words : Parameter → List Word
  | .register x => [⟨.ident, x⟩]
  | .group x => [.fixed .percent, ⟨.ident, x⟩]

end Parameter

namespace Expression

/-- Whether an expression has an operator. -/
def isCompound : Expression → Bool
  | .unary .. | .binary .. => true
  | _ => false

/-- The words of an expression. -/
def words : Expression → List Word
  | .bit false => [⟨.number, "0"⟩]
  | .bit true => [⟨.number, "1"⟩]
  | .register x => [⟨.ident, x⟩]
  | .group x => [.fixed .percent, ⟨.ident, x⟩]
  | .unary o e => ⟨.prefixOp, o⟩ :: e.words
  | .binary left o right =>
    (if left.isCompound then bracketedWords left.words else left.words)
      ++ ⟨.infixOp, o⟩ :: right.words

/-- How many levels an expression opens. -/
def need : Expression → Nat
  | .unary _ e => 1 + e.need
  | .binary left _ right => max (if left.isCompound then 1 + left.need else 0) right.need
  | _ => 0

end Expression

namespace Delay

/-- The amount and the unit that a delay is written with. -/
def amountAndUnit (d : Delay) : Nat × TimeUnit :=
  if d.nanoseconds < amountLimit then (d.nanoseconds, .nanosecond)
  else if d.nanoseconds % TimeUnit.millisecond.size = 0 ∧
      d.nanoseconds / TimeUnit.millisecond.size < amountLimit then
    (d.nanoseconds / TimeUnit.millisecond.size, .millisecond)
  else (d.nanoseconds / TimeUnit.second.size, .second)

/-- The words of a delay. -/
def words (d : Delay) : List Word :=
  [⟨.number, d.amountAndUnit.1.repr⟩, ⟨.ident, d.amountAndUnit.2.symbol⟩]

end Delay

namespace Statement

/-- The words of the group that counts the rounds of a clock. -/
def counterWords : Option String → List Word
  | none => []
  | some x => [.fixed .percent, ⟨.ident, x⟩]

mutual

/-- The words of a statement. -/
def words : Statement → List Word
  | .group x ps =>
    .fixed .percent :: ⟨.ident, x⟩ ::
      (bracketedWords (listWords (·.words) ps) ++ [.fixed .semicolon])
  | .call x es os =>
    ⟨.ident, x⟩ :: (bracketedWords (listWords (·.words) es) ++
      (.fixed .arrow :: bracketedWords (listWords (·.words) os) ++ [.fixed .semicolon]))
  | .pipe es os =>
    bracketedWords (listWords (·.words) es) ++
      .fixed .arrow :: (bracketedWords (listWords (·.words) os) ++ [.fixed .semicolon])
  | .clock d c b =>
    .fixed .clock :: (d.words ++
      (counterWords c ++ .fixed .leftBrace :: (bodyWords b ++ [.fixed .rightBrace])))

/-- The words of a block. -/
def bodyWords : List Statement → List Word
  | [] => []
  | s :: body => s.words ++ bodyWords body

end

theorem bodyWords_eq_flatMap (body : List Statement) : bodyWords body = body.flatMap words := by
  induction body with
  | nil => rfl
  | cons s body ih => rw [bodyWords, ih, List.flatMap_cons]

/-- Under so many clocks, a statement opens no more levels than the nesting limit allows. -/
inductive Fits : (clocks : Nat) → Statement → Prop
  | group {clocks : Nat} {x : String} {ps : List Parameter} : Fits clocks (.group x ps)
  | call {clocks : Nat} {x : String} {es : List Expression} {os : List Parameter}
      (hes : ∀ e ∈ es, clocks + e.need ≤ nestingLimit) : Fits clocks (.call x es os)
  | pipe {clocks : Nat} {es : List Expression} {os : List Parameter}
      (hes : ∀ e ∈ es, clocks + e.need ≤ nestingLimit) : Fits clocks (.pipe es os)
  | clock {clocks : Nat} {d : Delay} {c : Option String} {b : List Statement}
      (hclocks : clocks + 1 ≤ nestingLimit) (hb : ∀ s ∈ b, Fits (clocks + 1) s) :
      Fits clocks (.clock d c b)

end Statement

/-- The words of a reference. -/
def Inclusion.words (i : Inclusion) : List Word :=
  .fixed .inclusion :: ((if i.byName then [.fixed .name] else []) ++
    [⟨.string, i.value⟩, .fixed .semicolon])

/-- The words of a circuit. -/
def Circuit.words (c : Circuit) : List Word :=
  .fixed .circuit :: ⟨.ident, c.name⟩ ::
    ((bracketedWords (listWords (fun x => [⟨.ident, x⟩]) c.inputs) ++
      .fixed .arrow :: bracketedWords (listWords (fun x => [⟨.ident, x⟩]) c.outputs)) ++
      .fixed .leftBrace :: (c.body.flatMap (·.words) ++ [.fixed .rightBrace]))

namespace Program

/-- The words of a program. -/
def words (p : Program) : List Word :=
  [.fixed .name, .fixed .colon, ⟨.string, p.name⟩, .fixed .semicolon] ++
    (p.inclusions.flatMap (·.words) ++ p.circuits.flatMap (·.words))

/-- A text that says a program. -/
def source (p : Program) : List Char := spaced p.words

/-- Clocks, brackets and prefix operators open no more levels than the nesting limit allows. -/
def Fits (p : Program) : Prop := ∀ c ∈ p.circuits, ∀ s ∈ c.body, s.Fits 0

end Program

/-! ## The grammar derives the words -/

namespace Grammar

variable {α : Type} {X : Phrase α} {words : α → List Word}

theorem items_listWords {as : List α} (h : ∀ a ∈ as, X (words a) a) :
    Items X (listWords words as) as := by
  have hmore : ∀ {bs : List α}, (∀ b ∈ bs, X (words b) b) →
      MoreItems X (bs.flatMap fun b => .fixed .comma :: words b) bs := by
    intro bs hbs
    induction bs with
    | nil => exact .nil
    | cons b bs ih =>
      obtain ⟨hb, hbs⟩ := List.forall_mem_cons.mp hbs
      exact .cons hb (ih hbs)
  cases as with
  | nil => exact .nil
  | cons a as =>
    obtain ⟨ha, has⟩ := List.forall_mem_cons.mp h
    exact .cons ha (hmore has)

theorem many_map {β : Type} {f : β → α} {words : β → List Word} {bs : List β}
    (h : ∀ b ∈ bs, X (words b) (f b)) : Many X (bs.flatMap words) (bs.map f) := by
  induction bs with
  | nil => exact .nil
  | cons b bs ih =>
    obtain ⟨hb, hbs⟩ := List.forall_mem_cons.mp h
    exact .cons hb (ih hbs)

theorem many_flatMap {as : List α} (h : ∀ a ∈ as, X (words a) a) :
    Many X (as.flatMap words) as := by
  have hmap := many_map (f := id) h
  rwa [List.map_id] at hmap

theorem isParameter_words (p : Parameter) : IsParameter p.words p := by
  cases p with
  | register x => exact .register
  | group x => exact .group

/-- An expression is derived with as many levels as it needs. -/
theorem isExpression_words {e : Expression} {levels : Nat} (h : e.need ≤ levels) :
    IsExpression levels e.words e := by
  induction e generalizing levels with
  | bit b =>
    rw [isExpression_eq]
    cases b with
    | false => exact .operand .zero
    | true => exact .operand .one
  | register x =>
    rw [isExpression_eq]
    exact .operand .register
  | group x =>
    rw [isExpression_eq]
    exact .operand .group
  | unary o e ih =>
    rw [Expression.need] at h
    rw [isExpression_eq]
    exact .operand (.unary ⟨levels - 1, by omega, ih (by omega)⟩)
  | binary left o right ihleft ihright =>
    rw [Expression.need] at h
    have hright := ihright (Nat.le_trans (Nat.le_max_right _ _) h)
    have hleft := Nat.le_trans (Nat.le_max_left _ _) h
    rw [isExpression_eq] at hright ⊢
    rw [Expression.words]
    cases hcompound : left.isCompound with
    | true =>
      rw [hcompound, if_pos rfl] at hleft
      exact .binary (.bracketed (.mk ⟨levels - 1, by omega, ihleft (by omega)⟩))
        (not_begins_cons (by simp [Word.fixed])) hright
    | false =>
      cases left with
      | bit b =>
        cases b with
        | false => exact .binary .zero (not_begins_cons (by simp)) hright
        | true => exact .binary .one (not_begins_cons (by simp)) hright
      | register x => exact .binary .register (not_begins_cons (by simp)) hright
      | group x => exact .binary .group (not_begins_cons (by simp [Word.fixed])) hright
      | unary o e => simp [Expression.isCompound] at hcompound
      | binary left o right => simp [Expression.isCompound] at hcompound

theorem isExpressions_words {es : List Expression} {levels : Nat}
    (h : ∀ e ∈ es, e.need ≤ levels) :
    Bracketed (Items (IsExpression levels)) (bracketedWords (listWords (·.words) es)) es :=
  .mk (items_listWords fun e he => isExpression_words (h e he))

theorem isParameters_words (ps : List Parameter) :
    Bracketed (Items IsParameter) (bracketedWords (listWords (·.words) ps)) ps :=
  .mk (items_listWords fun p _ => isParameter_words p)

theorem isCounter_words (c : Option String) : IsCounter (Statement.counterWords c) c := by
  cases c with
  | none => exact .none
  | some x => exact .group

end Grammar

namespace Delay

/-- A well-formed delay is written as an amount below the bound of a unit that may be written. -/
theorem amountAndUnit_spec {d : Delay} (h : d.WellFormed) :
    d.amountAndUnit.1 < amountLimit ∧
      d.amountAndUnit.2 ∈ [.nanosecond, .millisecond, .second] ∧
      d.nanoseconds = d.amountAndUnit.1 * d.amountAndUnit.2.size := by
  unfold amountAndUnit
  split
  · rename_i hlt
    exact ⟨hlt, by simp, by simp [TimeUnit.size]⟩
  · rename_i hlarge
    split
    · rename_i hms
      exact ⟨hms.2, by simp, (Nat.div_mul_cancel (Nat.dvd_of_mod_eq_zero hms.1)).symm⟩
    · rename_i hnotMs
      rcases h with hlt | ⟨n, hn, hd⟩ | ⟨n, hn, hd⟩
      · exact absurd hlt hlarge
      · refine absurd ⟨?_, ?_⟩ hnotMs
        · rw [hd, Nat.mul_mod_left]
        · rwa [hd, Nat.mul_div_cancel n TimeUnit.millisecond.size_pos]
      · rw [hd, Nat.mul_div_cancel n TimeUnit.second.size_pos]
        exact ⟨hn, by simp, rfl⟩

theorem isAmount_repr (n : Nat) : IsAmount n.repr.toList n := by
  have h := @IsAmount.whole [] n.repr.toList (by simp) (Text.repr_ne_nil n) fun c =>
    Text.isDigit_of_mem_repr
  rwa [List.nil_append, Text.ofDigitChars_repr] at h

theorem isWritten_words {d : Delay} (h : d.WellFormed) :
    IsWritten d.amountAndUnit.1.repr d.amountAndUnit.2.symbol d := by
  obtain ⟨hn, hu, hd⟩ := amountAndUnit_spec h
  refine ⟨_, _, isAmount_repr _, hn, ?_, rfl, hd⟩
  have hwritten : ∀ u ∈ [TimeUnit.nanosecond, .millisecond, .second], u ∈ TimeUnit.written := by
    decide
  exact hwritten _ hu

end Delay

namespace Grammar

/-- A well-formed statement is derived with the levels that the clocks around it have left. -/
theorem isStatement_words {st : Statement} {clocks : Nat} (h : st.WellFormed)
    (hfits : st.Fits clocks) : IsStatement (nestingLimit - clocks) st.words st := by
  have hneed : ∀ {es : List Expression} {clocks : Nat},
      (∀ e ∈ es, clocks + e.need ≤ nestingLimit) →
        ∀ e ∈ es, e.need ≤ nestingLimit - clocks := fun hes e he => by
    have := hes e he
    omega
  induction h generalizing clocks with
  | group hx hps => exact .group (isParameters_words _)
  | call hx hes hos =>
    cases hfits with
    | call hes => exact .call (isExpressions_words (hneed hes)) (.listed (isParameters_words _))
  | pipe hes hos =>
    cases hfits with
    | pipe hes =>
      exact .pipe (.listed (isExpressions_words (hneed hes))) (.listed (isParameters_words _))
  | clock hd hc hb ih =>
    cases hfits with
    | clock hclocks hfits =>
      refine .clock (Delay.isWritten_words hd) (isCounter_words _) ?_
      refine ⟨nestingLimit - (clocks + 1), by omega, ?_⟩
      rw [isBlock_eq, Statement.bodyWords_eq_flatMap]
      exact many_flatMap fun s hs => ih s hs (hfits s hs)

theorem isInclusion_words (i : Inclusion) (levels : Nat) :
    IsItem levels i.words (.inclusion i) := by
  obtain ⟨byName, value⟩ := i
  cases byName with
  | false => exact .byPath
  | true => exact .byName

theorem isCircuit_words {c : Circuit} (h : c.WellFormed) (hfits : ∀ s ∈ c.body, s.Fits 0) :
    IsItem nestingLimit c.words (.circuit c) := by
  have hregisters : ∀ xs : List String, Bracketed (Items IsRegister)
      (bracketedWords (listWords (fun x => [⟨.ident, x⟩]) xs)) xs := fun xs =>
    .mk (items_listWords fun x _ => .mk)
  refine .circuit (.listed (hregisters _) (hregisters _)) ?_
  rw [isBlock_eq]
  exact many_flatMap fun s hs => isStatement_words (h.body s hs) (hfits s hs)

/-- References and circuits that stand apart are told apart. -/
theorem filterMap_items (is : List Inclusion) (cs : List Circuit) :
    (is.map Item.inclusion ++ cs.map Item.circuit).filterMap (·.inclusion?) = is ∧
      (is.map Item.inclusion ++ cs.map Item.circuit).filterMap (·.circuit?) = cs := by
  simp only [List.filterMap_append, List.filterMap_map]
  constructor
  · show is.filterMap some ++ cs.filterMap (fun _ => none) = is
    simp
  · show is.filterMap (fun _ => none) ++ cs.filterMap some = cs
    simp

/-- A well-formed program that fits the nesting limit is derived from its words. -/
theorem isProgram_words {p : Program} (h : p.WellFormed) (hfits : p.Fits) :
    IsProgram nestingLimit p.words p := by
  have hinclusions : Many (IsItem nestingLimit) (p.inclusions.flatMap (·.words))
      (p.inclusions.map .inclusion) := many_map fun i _ => isInclusion_words i _
  have hcircuits : Many (IsItem nestingLimit) (p.circuits.flatMap (·.words))
      (p.circuits.map .circuit) :=
    many_map fun c hc => isCircuit_words (h.circuits c hc) (hfits c hc)
  have hprogram := IsProgram.mk (.named (n := Kind.name.render) (c := Kind.colon.render)
    (v := p.name) (s := Kind.semicolon.render)) (hinclusions.append hcircuits)
  obtain ⟨his, hcs⟩ := filterMap_items p.inclusions p.circuits
  rw [his, hcs] at hprogram
  exact hprogram

end Grammar

/-! ## The words can be written -/

namespace Word

theorem isWritable_of_symbol {k : Kind} {x : String} (h : ∃ sort ∈ lexemes, sort.kind = k ∧
    sort.pattern.characters = x.toList ∧ sort.pattern.characters ≠ []) : IsWritable ⟨k, x⟩ := by
  obtain ⟨⟨pattern, kind⟩, hsort, rfl, hx, hne⟩ := h
  cases pattern with
  | symbol first more => exact .symbol hsort hx.symm
  | _ => exact absurd rfl hne

/-- The words that always look the same can be written. -/
theorem isWritable_fixed {k : Kind}
    (h : k ∈ Kind.keywords ++ [.semicolon, .leftParen, .rightParen, .leftBrace, .rightBrace,
      .comma, .percent, .arrow, .colon]) : (fixed k).IsWritable := by
  rcases List.mem_append.mp h with hkeyword | hsymbol
  · exact .keyword hkeyword
  · refine isWritable_of_symbol ?_
    revert k
    decide

theorem isWritable_prefixOp {o : String} (h : o ∈ prefixOperators) :
    IsWritable ⟨.prefixOp, o⟩ := by
  refine isWritable_of_symbol ?_
  revert o
  decide

theorem isWritable_infixOp {o : String} (h : o ∈ infixOperators) : IsWritable ⟨.infixOp, o⟩ := by
  refine isWritable_of_symbol ?_
  revert o
  decide

end Word

section Lists

variable {α : Type} {words : α → List Word}

theorem isWritable_bracketedWords {ws : List Word} (h : ∀ w ∈ ws, w.IsWritable) :
    ∀ w ∈ bracketedWords ws, w.IsWritable := by
  refine List.forall_mem_cons.mpr ⟨Word.isWritable_fixed (by decide), ?_⟩
  exact List.forall_mem_append.mpr
    ⟨h, List.forall_mem_singleton.mpr (Word.isWritable_fixed (by decide))⟩

theorem isWritable_flatMap {as : List α} (h : ∀ a ∈ as, ∀ w ∈ words a, w.IsWritable) :
    ∀ w ∈ as.flatMap words, w.IsWritable := by
  intro w hw
  obtain ⟨a, ha, hw⟩ := List.mem_flatMap.mp hw
  exact h a ha w hw

theorem isWritable_listWords {as : List α} (h : ∀ a ∈ as, ∀ w ∈ words a, w.IsWritable) :
    ∀ w ∈ listWords words as, w.IsWritable := by
  cases as with
  | nil => simp [listWords]
  | cons a as =>
    obtain ⟨ha, has⟩ := List.forall_mem_cons.mp h
    refine List.forall_mem_append.mpr ⟨ha, isWritable_flatMap fun b hb => ?_⟩
    exact List.forall_mem_cons.mpr ⟨Word.isWritable_fixed (by decide), has b hb⟩

end Lists

theorem Parameter.isWritable_words {p : Parameter} (h : IsName p.name.toList) :
    ∀ w ∈ p.words, w.IsWritable := by
  cases p with
  | register x => exact List.forall_mem_singleton.mpr (.name h)
  | group x =>
    exact List.forall_mem_cons.mpr
      ⟨Word.isWritable_fixed (by decide), List.forall_mem_singleton.mpr (.name h)⟩

theorem Expression.isWritable_words {e : Expression} (h : e.WellFormed) :
    ∀ w ∈ e.words, w.IsWritable := by
  induction h with
  | @bit b =>
    cases b with
    | false =>
      exact List.forall_mem_singleton.mpr (.number (by decide) (List.all_eq_true.mp (by decide)))
    | true =>
      exact List.forall_mem_singleton.mpr (.number (by decide) (List.all_eq_true.mp (by decide)))
  | register hx => exact List.forall_mem_singleton.mpr (.name hx)
  | group hx =>
    exact List.forall_mem_cons.mpr
      ⟨Word.isWritable_fixed (by decide), List.forall_mem_singleton.mpr (.name hx)⟩
  | unary ho he ih => exact List.forall_mem_cons.mpr ⟨Word.isWritable_prefixOp ho, ih⟩
  | @binary o left right hleft ho hright ihleft ihright =>
    refine List.forall_mem_append.mpr ⟨?_, List.forall_mem_cons.mpr
      ⟨Word.isWritable_infixOp ho, ihright⟩⟩
    cases left.isCompound with
    | true => exact isWritable_bracketedWords ihleft
    | false => exact ihleft

theorem Delay.isWritable_words {d : Delay} (h : d.WellFormed) : ∀ w ∈ d.words, w.IsWritable := by
  have hsymbol : ∀ u ∈ [TimeUnit.nanosecond, .millisecond, .second], IsName u.symbol.toList := by
    intro u hu
    simp only [List.mem_cons, List.not_mem_nil, or_false] at hu
    rcases hu with rfl | rfl | rfl <;>
      exact ⟨⟨_, _, rfl, startsWord_of_ascii (by decide), continuesWord_of_all (by decide)⟩,
        by decide⟩
  exact List.forall_mem_cons.mpr ⟨.number (Text.repr_ne_nil _) fun c => Text.isDigit_of_mem_repr,
    List.forall_mem_singleton.mpr (.name (hsymbol _ (amountAndUnit_spec h).2.1))⟩

theorem isWritable_parameters {ps : List Parameter} (h : ∀ p ∈ ps, IsName p.name.toList) :
    ∀ w ∈ bracketedWords (listWords (·.words) ps), w.IsWritable :=
  isWritable_bracketedWords (isWritable_listWords fun p hp => Parameter.isWritable_words (h p hp))

theorem isWritable_expressions {es : List Expression} (h : ∀ e ∈ es, e.WellFormed) :
    ∀ w ∈ bracketedWords (listWords (·.words) es), w.IsWritable :=
  isWritable_bracketedWords (isWritable_listWords fun e he => Expression.isWritable_words (h e he))

theorem Statement.isWritable_words {s : Statement} (h : s.WellFormed) :
    ∀ w ∈ s.words, w.IsWritable := by
  have hend : ∀ w ∈ [Word.fixed .semicolon], w.IsWritable :=
    List.forall_mem_singleton.mpr (Word.isWritable_fixed (by decide))
  induction h with
  | group hx hps =>
    refine List.forall_mem_cons.mpr ⟨Word.isWritable_fixed (by decide), ?_⟩
    refine List.forall_mem_cons.mpr ⟨.name hx, ?_⟩
    exact List.forall_mem_append.mpr ⟨isWritable_parameters hps, hend⟩
  | call hx hes hos =>
    refine List.forall_mem_cons.mpr ⟨.name hx, ?_⟩
    refine List.forall_mem_append.mpr ⟨isWritable_expressions hes, ?_⟩
    refine List.forall_mem_cons.mpr ⟨Word.isWritable_fixed (by decide), ?_⟩
    exact List.forall_mem_append.mpr ⟨isWritable_parameters hos, hend⟩
  | pipe hes hos =>
    refine List.forall_mem_append.mpr ⟨isWritable_expressions hes, ?_⟩
    refine List.forall_mem_cons.mpr ⟨Word.isWritable_fixed (by decide), ?_⟩
    exact List.forall_mem_append.mpr ⟨isWritable_parameters hos, hend⟩
  | @clock d c b hd hc hb ih =>
    refine List.forall_mem_cons.mpr ⟨Word.isWritable_fixed (by decide), ?_⟩
    refine List.forall_mem_append.mpr ⟨Delay.isWritable_words hd, ?_⟩
    refine List.forall_mem_append.mpr ⟨?_, List.forall_mem_cons.mpr
      ⟨Word.isWritable_fixed (by decide), List.forall_mem_append.mpr
        ⟨?_, List.forall_mem_singleton.mpr (Word.isWritable_fixed (by decide))⟩⟩⟩
    · cases c with
      | none => simp [counterWords]
      | some x =>
        exact List.forall_mem_cons.mpr
          ⟨Word.isWritable_fixed (by decide), List.forall_mem_singleton.mpr (.name (hc x rfl))⟩
    · rw [bodyWords_eq_flatMap]
      exact isWritable_flatMap ih

theorem Inclusion.isWritable_words {i : Inclusion} (hread : Text.IsRead i.value.toList)
    (hlast : i.value.toList.getLast? ≠ some '\\') : ∀ w ∈ i.words, w.IsWritable := by
  refine List.forall_mem_cons.mpr ⟨Word.isWritable_fixed (by decide), ?_⟩
  refine List.forall_mem_append.mpr ⟨?_, ?_⟩
  · cases i.byName with
    | true => exact List.forall_mem_singleton.mpr (Word.isWritable_fixed (by decide))
    | false => simp
  · exact List.forall_mem_cons.mpr
      ⟨.string hread hlast, List.forall_mem_singleton.mpr (Word.isWritable_fixed (by decide))⟩

theorem Circuit.isWritable_words {c : Circuit} (h : c.WellFormed) :
    ∀ w ∈ c.words, w.IsWritable := by
  have hregisters : ∀ {xs : List String}, (∀ x ∈ xs, IsName x.toList) →
      ∀ w ∈ bracketedWords (listWords (fun x => [⟨.ident, x⟩]) xs), w.IsWritable := fun hxs =>
    isWritable_bracketedWords (isWritable_listWords fun x hx =>
      List.forall_mem_singleton.mpr (.name (hxs x hx)))
  refine List.forall_mem_cons.mpr ⟨Word.isWritable_fixed (by decide), ?_⟩
  refine List.forall_mem_cons.mpr ⟨.name h.name, ?_⟩
  refine List.forall_mem_append.mpr ⟨?_, ?_⟩
  · refine List.forall_mem_append.mpr ⟨hregisters h.inputs, ?_⟩
    exact List.forall_mem_cons.mpr ⟨Word.isWritable_fixed (by decide), hregisters h.outputs⟩
  · refine List.forall_mem_cons.mpr ⟨Word.isWritable_fixed (by decide), ?_⟩
    exact List.forall_mem_append.mpr
      ⟨isWritable_flatMap fun s hs => Statement.isWritable_words (h.body s hs),
        List.forall_mem_singleton.mpr (Word.isWritable_fixed (by decide))⟩

namespace Program

/-- The texts of a program can be written as strings: none ends in a backslash. -/
structure IsQuotable (p : Program) : Prop where
  name : p.name.toList.getLast? ≠ some '\\'
  inclusions : ∀ i ∈ p.inclusions, i.value.toList.getLast? ≠ some '\\'

variable {p : Program}

theorem isWritable_words (h : p.WellFormed) (hquotable : p.IsQuotable) :
    ∀ w ∈ p.words, w.IsWritable := by
  refine List.forall_mem_append.mpr ⟨?_, List.forall_mem_append.mpr ⟨?_, ?_⟩⟩
  · refine List.forall_mem_cons.mpr ⟨Word.isWritable_fixed (by decide), ?_⟩
    refine List.forall_mem_cons.mpr ⟨Word.isWritable_fixed (by decide), ?_⟩
    exact List.forall_mem_cons.mpr ⟨.string h.name hquotable.name,
      List.forall_mem_singleton.mpr (Word.isWritable_fixed (by decide))⟩
  · exact isWritable_flatMap fun i hi =>
      Inclusion.isWritable_words (h.inclusions i hi) (hquotable.inclusions i hi)
  · exact isWritable_flatMap fun c hc => Circuit.isWritable_words (h.circuits c hc)

/-- A well-formed program is read back from the text that is written for it, if its texts can be
written as strings and it fits the nesting limit. -/
theorem parse_source (h : p.WellFormed) (hquotable : p.IsQuotable) (hfits : p.Fits)
    (file : String) : parse p.source file = .ok p := by
  rw [parse_eq_ok_iff, source, Lexer.words_spaced (isWritable_words h hquotable)]
  exact Grammar.isProgram_words h hfits

/-- Programs that are read are well-formed, and all well-formed programs are read from some text,
whatever its file, if their texts can be written as strings and they fit the nesting limit. -/
theorem wellFormed_of_parse_and_exists_text :
    (∀ {text : List Char} {file : String} {p : Program}, parse text file = .ok p → p.WellFormed) ∧
      ∀ {p : Program}, p.WellFormed → p.IsQuotable → p.Fits →
        ∃ text : List Char, ∀ file : String, parse text file = .ok p :=
  ⟨wellFormed_of_parse, fun {p} h hquotable hfits =>
    ⟨p.source, fun file => parse_source h hquotable hfits file⟩⟩

/-- A program with a reference by name, and with brackets that an operator needs under two clocks,
is read from one text and so from one that is read alike in all files. -/
theorem wellFormed_of_parse_and_exists_text_nested_clocks :
    let p : Program := ⟨"a: \"b\"", [⟨true, "c\n"⟩], [⟨"f", [], ["y"],
      [.clock ⟨1500000000, by decide⟩ (some "n")
        [.clock ⟨1, by decide⟩ none
          [.pipe [.binary (.unary "!" (.register "x")) "&" (.unary "¬" (.bit true))]
            [.register "y"]]]]⟩]⟩
    parse "name: 'a: \"b\"'; include name 'c\\n'; circuit f() -> (y,) \x7b
      clock 1500 ms %n \x7b clock 1ns \x7b (!x) & (¬1) -> y; \x7d \x7d \x7d".toList "here" = .ok p ∧
      p.WellFormed ∧ p.IsQuotable ∧ p.Fits ∧
      ∃ text : List Char, ∀ file : String, parse text file = .ok p := by
  intro p
  have hparse : parse "name: 'a: \"b\"'; include name 'c\\n'; circuit f() -> (y,) \x7b
      clock 1500 ms %n \x7b clock 1ns \x7b (!x) & (¬1) -> y; \x7d \x7d \x7d".toList "here" =
      .ok p :=
    (sameReading_iff _ _).mp (by decide +kernel)
  have hwellFormed : p.WellFormed := wellFormed_of_parse_and_exists_text.1 hparse
  have hquotable : p.IsQuotable := ⟨by decide, by decide⟩
  have hfits : p.Fits := by
    refine List.forall_mem_singleton.mpr (List.forall_mem_singleton.mpr ?_)
    refine .clock (by decide) (List.forall_mem_singleton.mpr ?_)
    refine .clock (by decide) (List.forall_mem_singleton.mpr ?_)
    exact .pipe (List.forall_mem_singleton.mpr (by decide))
  exact ⟨hparse, hwellFormed, hquotable, hfits,
    wellFormed_of_parse_and_exists_text.2 hwellFormed hquotable hfits⟩

end Program
end CircuitText
