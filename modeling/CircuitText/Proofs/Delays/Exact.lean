import CircuitText.Proofs.Lexing.Lexemes
import CircuitText.Proofs.Parsing.Delay
import CircuitText.Proofs.Parsing.Recursion
import Mathlib.Algebra.Group.Nat.Defs

/-!
# Delays are exact

The lexer knows a number as a sign, digits, and digits behind a point.  A delay is read from these
parts: `Numeral.delay` says what becomes of a number and the token behind it, in natural numbers
without a bound, and the first thing that is wrong is what is blamed.  What is read is never
anything else.  In particular no amount wraps around, and a number of the lexer is never refused for
having no digits.

* `Numeral`, `exists_numeral_of_mem_tokenize` --- the parts of a number;
* `Numeral.amount_spelling` --- the amount that a number stands for;
* `Numeral.delay`, `Grammar.delay_eq_numeral_delay` --- what becomes of a number and a unit.
-/

namespace CircuitText

/-! ## The parts of a number -/

/-- A number as the lexer knows it. -/
structure Numeral where
  /-- The sign, if there is one. -/
  sign : Option Char
  /-- The digits before the point. -/
  whole : List Char
  /-- The digits behind the point; without a point there are none. -/
  fraction : List Char
  isSign : ∀ c ∈ sign, c = '-' ∨ c = '+'
  whole_ne_nil : whole ≠ []
  isDigit_whole : ∀ c ∈ whole, c.isDigit = true
  isDigit_fraction : ∀ c ∈ fraction, c.isDigit = true

namespace Numeral

variable (n : Numeral)

/-- The point and the digits behind it. -/
def pointed : List Char := if n.fraction = [] then [] else '.' :: n.fraction

/-- The characters of a number. -/
def spelling : List Char := n.sign.toList ++ (n.whole ++ n.pointed)

/-- The natural number that the digits before the point denote. -/
def value : Nat := Nat.ofDigitChars 10 n.whole 0

/-- There is no minus sign, and no digit behind the point but zeros. -/
def IsWhole : Prop := n.sign ≠ some '-' ∧ ∀ c ∈ n.fraction, c = '0'

instance : Decidable n.IsWhole := inferInstanceAs (Decidable (_ ∧ _))

end Numeral

/-- The number of a token that the lexer can give has parts. -/
theorem exists_numeral_of_mem_tokenize {text : List Char} {file : String} {number : Token}
    (hnumber : number ∈ Lexer.tokenize text file) (hkind : number.kind = .number) :
    ∃ n : Numeral, number.literal.toList = n.spelling := by
  have hword : number.word ∈ Lexer.words text file := List.mem_map_of_mem hnumber
  obtain ⟨lexeme, hspells⟩ := Lexer.isSpelled_of_mem_words _ hword
  rw [Token.kind_word, Token.literal_word, hkind] at hspells
  obtain ⟨sign, whole, fraction, hsign, hne, hwhole, hfraction, htext⟩ := hspells.exists_parts
  have hliteral := (hspells.literal_eq (by simp)).trans htext
  have hsignPart : ∃ c? : Option Char, c?.toList = sign ∧ ∀ c ∈ c?, c = '-' ∨ c = '+' := by
    rcases hsign with rfl | rfl | rfl
    · exact ⟨none, rfl, by simp⟩
    · exact ⟨some '-', rfl, by simp⟩
    · exact ⟨some '+', rfl, by simp⟩
  obtain ⟨c?, rfl, hc⟩ := hsignPart
  rcases hfraction with rfl | ⟨digits, rfl, hdigits, hall⟩
  · exact ⟨⟨c?, whole, [], hc, hne, hwhole, by simp⟩, hliteral⟩
  · refine ⟨⟨c?, whole, digits, hc, hne, hwhole, hall⟩, ?_⟩
    rw [hliteral, Numeral.spelling, Numeral.pointed, if_neg hdigits]

/-! ## Amounts -/

namespace Numeral

variable (n : Numeral)

theorem isDigit_ne_minus {c : Char} (h : c.isDigit = true) : c ≠ '-' := by
  rintro rfl
  exact absurd h (by decide)

/-- No sign and no digit is a point. -/
theorem bne_point_of_mem : ∀ c ∈ n.sign.toList ++ n.whole, (c != '.') = true := by
  intro c hc
  rcases List.mem_append.mp hc with hc | hc
  · rcases n.isSign c (Option.mem_toList.mp hc) with rfl | rfl <;> decide
  · exact Delay.isDigit_ne_point (n.isDigit_whole c hc)

theorem stops_pointed : Text.Stops (· != '.') n.pointed := by
  unfold pointed
  split <;> simp

theorem drop_pointed : n.pointed.drop 1 = n.fraction := by
  unfold pointed
  split <;> simp_all

/-- A number begins with a minus sign if that is its sign. -/
theorem head?_eq_minus_iff :
    (n.sign.toList ++ n.whole).head? = some '-' ↔ n.sign = some '-' := by
  cases hsign : n.sign with
  | some c => simp
  | none =>
    simp only [Option.toList_none, List.nil_append, reduceCtorEq, iff_false]
    intro h
    exact isDigit_ne_minus (n.isDigit_whole _ (List.mem_of_mem_head? h)) rfl

/-- Behind a plus sign there are the digits. -/
theorem dropWhile_plus (h : n.sign ≠ some '-') :
    (n.sign.toList ++ n.whole).dropWhile (· == '+') = n.whole := by
  refine Text.dropWhile_run (fun c hc => ?_) fun c hc =>
    Delay.isDigit_ne_plus (n.isDigit_whole c (List.mem_of_mem_head? hc))
  have hmem := Option.mem_toList.mp hc
  rcases n.isSign c hmem with rfl | rfl
  · exact absurd hmem h
  · rfl

/-- The amount of a number is its value, unless the number is not whole or the value too large. -/
theorem amount_spelling :
    Delay.amount n.spelling =
      if n.IsWhole then
        if n.value < amountLimit then .ok n.value else .error .tooLong
      else .error .notWhole := by
  have hdigits : ¬ (n.whole = [] ∨ (n.whole.any fun c => !c.isDigit) = true) := by
    simpa [n.whole_ne_nil] using n.isDigit_whole
  have hwhole : ((n.sign.toList ++ n.whole).head? = some '-' ∨
      (n.fraction.any (· != '0')) = true) ↔ ¬ n.IsWhole := by
    rw [head?_eq_minus_iff]
    simp [IsWhole, Decidable.imp_iff_not_or]
  unfold Delay.amount
  rw [spelling, ← List.append_assoc, Text.takeWhile_run n.bne_point_of_mem n.stops_pointed,
    Text.dropWhile_run n.bne_point_of_mem n.stops_pointed, drop_pointed]
  by_cases h : n.IsWhole
  · rw [if_neg fun h' => hwhole.mp h' h, if_pos h, dropWhile_plus n h.1, if_neg hdigits]
    rfl
  · rw [if_pos (hwhole.mpr h), if_neg h]

/-! ## Delays -/

end Numeral

/-- What becomes of an amount below `2 ^ 64` and a word, the nanoseconds of a delay or the first
thing that is wrong; `number` is the token that the amount was read from. -/
def nanosecondsIn (amount : Nat) (number unit : Token) : Except Fault Nat :=
  if unit.literal = "ns" then .ok amount
  else if unit.literal = "ms" then .ok (amount * 10 ^ 6)
  else if unit.literal = "s" then .ok (amount * 10 ^ 9)
  else if unit.literal = "m" then
    if 2 ^ 64 ≤ amount * 60 then
      .error ⟨.delayTooLong number.literal unit.literal, number.span⟩
    else .ok (amount * (60 * 10 ^ 9))
  else if unit.literal = "h" then
    if 2 ^ 64 ≤ amount * 3600 then
      .error ⟨.delayTooLong number.literal unit.literal, number.span⟩
    else .ok (amount * (3600 * 10 ^ 9))
  else .error ⟨.unknownTimeUnit unit.literal, unit.span⟩

/-- What becomes of a number and the token behind it, the nanoseconds of a delay or the first thing
that is wrong. -/
def Numeral.delay (n : Numeral) (number next : Token) : Except Fault Nat :=
  if ¬ n.IsWhole then .error ⟨.badAmount number.literal .notWhole, number.span⟩
  else if 2 ^ 64 ≤ n.value then .error ⟨.badAmount number.literal .tooLong, number.span⟩
  else if next.kind ≠ .ident then .error ⟨.noTimeUnit next.kind, next.span⟩
  else nanosecondsIn n.value number next

/-- Only five words stand for units. -/
theorem TimeUnit.ofSymbol?_eq_none_iff {word : String} :
    ofSymbol? word = none ↔
      word ≠ "ns" ∧ word ≠ "ms" ∧ word ≠ "s" ∧ word ≠ "m" ∧ word ≠ "h" := by
  simp [ofSymbol?, written, symbol, eq_comm (b := word)]

/-- Amounts fit the units up to a second. -/
theorem mul_size_lt_of_le {amount : Nat} {u : TimeUnit} (hlt : amount < amountLimit)
    (hu : u.size ≤ TimeUnit.second.size) : amount * u.size < delayLimit :=
  Nat.lt_of_le_of_lt (Nat.mul_le_mul_left amount hu)
    ((Nat.mul_lt_mul_right TimeUnit.second.size_pos).mpr hlt)

/-- In a larger unit it is the seconds that are bounded. -/
theorem mul_size_lt_iff {amount seconds : Nat} {u : TimeUnit}
    (hu : u.size = seconds * TimeUnit.second.size) :
    amount * u.size < delayLimit ↔ amount * seconds < 2 ^ 64 := by
  rw [hu, ← Nat.mul_assoc]
  exact Nat.mul_lt_mul_right TimeUnit.second.size_pos

/-- The delay of an amount and a unit, one unit after the other. -/
theorem nanosecondsIn_eq {amount : Nat} (hlt : amount < amountLimit) (number unit : Token) :
    nanosecondsIn amount number unit =
      match TimeUnit.ofSymbol? unit.literal with
      | none => .error ⟨.unknownTimeUnit unit.literal, unit.span⟩
      | some u =>
        if amount * u.size < delayLimit then .ok (amount * u.size)
        else .error ⟨.delayTooLong number.literal unit.literal, number.span⟩ := by
  unfold nanosecondsIn
  cases hunit : TimeUnit.ofSymbol? unit.literal with
  | none =>
    obtain ⟨hns, hms, hs, hm, hh⟩ := TimeUnit.ofSymbol?_eq_none_iff.mp hunit
    simp [hns, hms, hs, hm, hh]
  | some u =>
    obtain ⟨hwritten, hsymbol⟩ := TimeUnit.ofSymbol?_eq_some_iff.mp hunit
    rw [← hsymbol]
    cases u with
    | microsecond => exact absurd hwritten (by decide)
    | nanosecond =>
      rw [if_pos (by decide)]
      dsimp only
      rw [if_pos (mul_size_lt_of_le hlt (by decide))]
      exact congrArg Except.ok (Nat.mul_one amount).symm
    | millisecond =>
      rw [if_neg (by decide), if_pos (by decide)]
      dsimp only
      rw [if_pos (mul_size_lt_of_le hlt (by decide))]
      rfl
    | second =>
      rw [if_neg (by decide), if_neg (by decide), if_pos (by decide)]
      dsimp only
      rw [if_pos (mul_size_lt_of_le hlt (by decide))]
      rfl
    | minute =>
      rw [if_neg (by decide), if_neg (by decide), if_neg (by decide), if_pos (by decide)]
      dsimp only
      have hlong : amount * TimeUnit.minute.size < delayLimit ↔ amount * 60 < 2 ^ 64 :=
        mul_size_lt_iff rfl
      by_cases h : 2 ^ 64 ≤ amount * 60
      · rw [if_pos h, if_neg fun h' => Nat.not_lt.mpr h (hlong.mp h')]
      · rw [if_neg h, if_pos (hlong.mpr (Nat.not_le.mp h))]
        rfl
    | hour =>
      rw [if_neg (by decide), if_neg (by decide), if_neg (by decide), if_neg (by decide),
        if_pos (by decide)]
      dsimp only
      have hlong : amount * TimeUnit.hour.size < delayLimit ↔ amount * 3600 < 2 ^ 64 :=
        mul_size_lt_iff rfl
      by_cases h : 2 ^ 64 ≤ amount * 3600
      · rw [if_pos h, if_neg fun h' => Nat.not_lt.mpr h (hlong.mp h')]
      · rw [if_neg h, if_pos (hlong.mpr (Nat.not_le.mp h))]
        rfl

namespace Grammar

variable {s : State}

/-- A number without an amount is to blame. -/
theorem result_delay_of_error {e : AmountError}
    (h : Delay.amount s.current.literal.toList = .error e) :
    (delay s).result.map (·.nanoseconds) =
      .error ⟨.badAmount s.current.literal e, s.current.span⟩ := by
  rw [delay, bind_of_ok (p := current) rfl]
  simp only [h]
  rfl

/-- An amount and the token behind it. -/
theorem result_delay_of_ok {amount : Nat}
    (h : Delay.amount s.current.literal.toList = .ok amount) :
    (delay s).result.map (·.nanoseconds) =
      if s.ahead.kind ≠ .ident then .error ⟨.noTimeUnit s.ahead.kind, s.ahead.span⟩
      else match TimeUnit.ofSymbol? s.ahead.literal with
      | none => .error ⟨.unknownTimeUnit s.ahead.literal, s.ahead.span⟩
      | some u =>
        if amount * u.size < delayLimit then .ok (amount * u.size)
        else .error ⟨.delayTooLong s.current.literal s.ahead.literal, s.current.span⟩ := by
  rw [delay, bind_of_ok (p := current) rfl]
  simp only [h]
  rw [bind_of_ok (p := ahead) rfl]
  by_cases hk : s.ahead.kind = .ident
  · rw [if_neg (not_not_intro hk), if_neg (not_not_intro hk), bind_of_ok (p := advance) rfl]
    cases TimeUnit.ofSymbol? s.ahead.literal with
    | none => rfl
    | some u =>
      simp only [Delay.of?, Delay.ofNanoseconds?]
      by_cases hlt : amount * u.size < delayLimit
      · rw [dif_pos hlt, if_pos hlt]
        rfl
      · rw [dif_neg hlt, if_neg hlt]
        rfl
  · rw [if_pos hk, if_pos hk]
    rfl

/-- What becomes of a number and the token behind it. -/
theorem result_delay {n : Numeral} (h : s.current.literal.toList = n.spelling) :
    (delay s).result.map (·.nanoseconds) = n.delay s.current s.ahead := by
  have hamount := n.amount_spelling
  rw [← h] at hamount
  unfold Numeral.delay
  by_cases hwhole : n.IsWhole
  · rw [if_pos hwhole] at hamount
    rw [if_neg (not_not_intro hwhole)]
    by_cases hlt : n.value < amountLimit
    · rw [if_pos hlt] at hamount
      rw [if_neg (show ¬ 2 ^ 64 ≤ n.value from Nat.not_le.mpr hlt), nanosecondsIn_eq hlt,
        result_delay_of_ok hamount]
    · rw [if_neg hlt] at hamount
      rw [if_pos (show 2 ^ 64 ≤ n.value from Nat.not_lt.mp hlt), result_delay_of_error hamount]
  · rw [if_neg hwhole] at hamount
    rw [if_pos hwhole, result_delay_of_error hamount]

/-- Where a delay is read the unit is taken; a fault is noted before or behind it, and is one of
meaning. -/
theorem after_delay (s : State) :
    (∀ d, (delay s).result = .ok d → (delay s).after = s.advance) ∧
      ∀ f, (delay s).result = .error f → f.cause.category = .semantic ∧
        ((delay s).after = s.note f ∨ (delay s).after = s.advance.note f) := by
  constructor
  · intro d h
    exact (reads_delay.mp ⟨h, rfl⟩).2.2
  · intro f
    rw [delay, bind_of_ok (p := current) rfl]
    cases Delay.amount s.current.literal.toList with
    | error e =>
      rintro ⟨⟩
      exact ⟨rfl, .inl rfl⟩
    | ok amount =>
      dsimp only
      rw [bind_of_ok (p := ahead) rfl]
      by_cases hk : s.ahead.kind = .ident
      · rw [if_neg (not_not_intro hk), bind_of_ok (p := advance) rfl]
        cases TimeUnit.ofSymbol? s.ahead.literal with
        | none =>
          rintro ⟨⟩
          exact ⟨rfl, .inr rfl⟩
        | some u =>
          dsimp only
          cases Delay.of? amount u with
          | none =>
            rintro ⟨⟩
            exact ⟨rfl, .inr rfl⟩
          | some d => rintro ⟨⟩
      · rw [if_pos hk]
        rintro ⟨⟩
        exact ⟨rfl, .inl rfl⟩

/-- Only a number that is not whole, or too large, is refused as an amount. -/
theorem ne_malformed_of_numeral_delay {n : Numeral} {number next : Token} {f : Fault}
    (h : n.delay number next = .error f) (literal : String) :
    f.cause ≠ .badAmount literal .malformed := by
  rintro heq
  unfold Numeral.delay nanosecondsIn at h
  repeat' split at h
  all_goals
    cases h
    try cases heq

/-- Whatever number the lexer gives, and whatever token is behind it: what is read as a delay is
exactly what the parts of the number and the unit make, and if they make none then the first thing
that is wrong is noted and ends the reading.  That the number has no digits is never what is
wrong. -/
theorem delay_eq_numeral_delay {text : List Char} {file : String} {number : Token}
    (hnumber : number ∈ Lexer.tokenize text file) (hkind : number.kind = .number) {s : State}
    (hs : s.current = number) :
    ∃ n : Numeral, number.literal.toList = n.spelling ∧
      (delay s).result.map (·.nanoseconds) = n.delay number s.ahead ∧
      (∀ d, (delay s).result = .ok d → (delay s).after = s.advance) ∧
      ∀ f, (delay s).result = .error f → f.cause.category = .semantic ∧
        (∀ literal, f.cause ≠ .badAmount literal .malformed) ∧
        ((delay s).after = s.note f ∨ (delay s).after = s.advance.note f) := by
  subst hs
  obtain ⟨n, hn⟩ := exists_numeral_of_mem_tokenize hnumber hkind
  have hresult := result_delay hn
  obtain ⟨hok, herror⟩ := after_delay s
  refine ⟨n, hn, hresult, hok, fun f hf => ?_⟩
  obtain ⟨hcategory, hafter⟩ := herror f hf
  rw [hf] at hresult
  exact ⟨hcategory, ne_malformed_of_numeral_delay hresult.symm, hafter⟩

/-- One hour more than fits: the number is to blame, although it is small enough to be an amount. -/
theorem delay_eq_numeral_delay_hours :
    let text := "+05124095576030432.00 h".toList
    let s := State.start (.ofLexer (.ofText text "here"))
    s.current ∈ Lexer.tokenize text "here" ∧ s.current.kind = .number ∧
      (delay s).after.faults =
        [⟨.delayTooLong "+05124095576030432.00" "h", ⟨⟨"here", 1, 1⟩, ⟨"here", 1, 21⟩⟩⟩] ∧
      ∃ n : Numeral, s.current.literal.toList = n.spelling ∧
        (delay s).result.map (·.nanoseconds) = n.delay s.current s.ahead ∧
        (∀ d, (delay s).result = .ok d → (delay s).after = s.advance) ∧
        ∀ f, (delay s).result = .error f → f.cause.category = .semantic ∧
          (∀ literal, f.cause ≠ .badAmount literal .malformed) ∧
          ((delay s).after = s.note f ∨ (delay s).after = s.advance.note f) := by
  intro text s
  have hnumber : s.current ∈ Lexer.tokenize text "here" := by decide +kernel
  have hkind : s.current.kind = .number := by decide +kernel
  exact ⟨hnumber, hkind, by decide +kernel, delay_eq_numeral_delay hnumber hkind rfl⟩

end Grammar
end CircuitText
