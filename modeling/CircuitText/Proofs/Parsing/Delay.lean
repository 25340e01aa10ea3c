import CircuitText.Proofs.Parsing.Reading
import CircuitText.Proofs.Runs

/-!
# Reading delays is deriving them

The amount of a delay is found by cutting the literal at its point and passing over its plus signs.
It exists just for the numbers that are written as a whole and lie below `2 ^ 64`.

* `Delay.amount_eq_ok_iff` --- which literals have an amount;
* `Grammar.reads_delay` --- a delay is read exactly where one is written.
-/

namespace CircuitText

namespace TimeUnit

theorem ofSymbol?_eq_some_iff {word : String} {u : TimeUnit} :
    ofSymbol? word = some u ↔ u ∈ written ∧ u.symbol = word := by
  constructor
  · intro h
    exact ⟨List.mem_of_find?_eq_some h, by simpa using List.find?_some h⟩
  · rintro ⟨hu, rfl⟩
    rw [ofSymbol?_symbol, if_neg]
    rintro rfl
    exact absurd hu (by decide)

end TimeUnit

namespace Delay

theorem of?_eq_some_iff {n : Nat} {u : TimeUnit} {d : Delay} :
    of? n u = some d ↔ d.nanoseconds = n * u.size := by
  unfold of? ofNanoseconds?
  split
  · rw [Option.some.injEq]
    constructor
    · rintro rfl
      rfl
    · intro h
      cases d
      congr 1
      exact h.symm
  · rename_i h
    simp only [reduceCtorEq, false_iff]
    exact fun heq => h (heq ▸ d.lt_limit)

/-! ## Amounts -/

variable {cs : List Char} {n : Nat}

theorem isDigit_ne_point {c : Char} (h : c.isDigit = true) : (c != '.') = true := by
  rw [bne_iff_ne]
  rintro rfl
  exact absurd h (by decide)

theorem isDigit_ne_plus {c : Char} (h : c.isDigit = true) : (c == '+') = false := by
  rw [beq_eq_false_iff_ne]
  rintro rfl
  exact absurd h (by decide)

/-- A literal is cut at its point, and what is before the point behind its plus signs. -/
theorem isAmount_of_amount_eq_ok (h : amount cs = .ok n) : IsAmount cs n ∧ n < amountLimit := by
  have hcs : cs.takeWhile (· != '.') ++ cs.dropWhile (· != '.') = cs :=
    List.takeWhile_append_dropWhile
  have hpoint := Text.stops_dropWhile (p := (· != '.')) cs
  unfold amount at h
  dsimp only at h
  generalize cs.takeWhile (· != '.') = whole at h hcs
  generalize cs.dropWhile (· != '.') = rest at h hcs hpoint
  have hwhole : whole.takeWhile (· == '+') ++ whole.dropWhile (· == '+') = whole :=
    List.takeWhile_append_dropWhile
  have hsigns : ∀ c ∈ whole.takeWhile (· == '+'), c = '+' :=
    fun c hc => by simpa using Text.of_mem_takeWhile hc
  generalize whole.takeWhile (· == '+') = signs at hwhole hsigns
  generalize whole.dropWhile (· == '+') = digits at h hwhole
  subst hwhole hcs
  split at h
  · simp at h
  · rename_i hrest
    split at h
    · simp at h
    · rename_i hdigits
      split at h
      · rename_i hlt
        simp only [Except.ok.injEq] at h
        subst h
        refine ⟨?_, hlt⟩
        obtain ⟨hne, hdigits⟩ := not_or.mp hdigits
        have hdigits : ∀ c ∈ digits, c.isDigit = true := by simpa using hdigits
        cases rest with
        | nil => simpa using IsAmount.whole hsigns hne hdigits
        | cons c zeros =>
          obtain rfl : c = '.' := by simpa using hpoint
          have hzeros : ∀ c ∈ zeros, c = '0' := by simpa using (not_or.mp hrest).2
          rw [List.append_assoc]
          exact .fraction hsigns hne hdigits hzeros
      · simp at h

/-- What the cut at the point leaves of a whole number and a fraction. -/
theorem amount_of_parts {signs digits fraction : List Char} (hsigns : ∀ c ∈ signs, c = '+')
    (hne : digits ≠ []) (hdigits : ∀ c ∈ digits, c.isDigit = true)
    (hfraction : Text.Stops (· != '.') fraction) (hzeros : ∀ c ∈ fraction.drop 1, c = '0')
    (hlt : Nat.ofDigitChars 10 digits 0 < amountLimit) :
    amount (signs ++ (digits ++ fraction)) = .ok (Nat.ofDigitChars 10 digits 0) := by
  have hrun : ∀ c ∈ signs ++ digits, (c != '.') = true := by
    intro c hc
    rcases List.mem_append.mp hc with hc | hc
    · rw [hsigns c hc]
      decide
    · exact isDigit_ne_point (hdigits c hc)
  have hplus : Text.Stops (· == '+') digits := fun c hc =>
    isDigit_ne_plus (hdigits c (List.mem_of_mem_head? hc))
  have hminus : (signs ++ digits).head? ≠ some '-' := by
    intro h
    rcases List.mem_append.mp (List.mem_of_mem_head? h) with hc | hc
    · exact absurd (hsigns _ hc) (by decide)
    · exact absurd (hdigits _ hc) (by decide)
  unfold amount
  dsimp only
  rw [← List.append_assoc, Text.takeWhile_run hrun hfraction, Text.dropWhile_run hrun hfraction,
    Text.dropWhile_run (by simpa using hsigns) hplus, if_neg, if_neg, if_pos hlt]
  · simpa [hne] using hdigits
  · exact not_or.mpr ⟨hminus, by simpa using hzeros⟩

/-- The numbers that have an amount. -/
theorem amount_eq_ok_iff : amount cs = .ok n ↔ IsAmount cs n ∧ n < amountLimit := by
  constructor
  · exact isAmount_of_amount_eq_ok
  · rintro ⟨h, hlt⟩
    cases h with
    | whole hsigns hne hdigits =>
      have h := amount_of_parts hsigns hne hdigits (Text.stops_nil (p := (· != '.'))) (by simp) hlt
      simpa using h
    | fraction hsigns hne hdigits hzeros =>
      exact amount_of_parts hsigns hne hdigits (by simp) hzeros hlt

end Delay

namespace Grammar

variable {s t : State}

/-- A delay is read exactly where a number, the current word, and a unit make one. -/
theorem reads_delay {d : Delay} :
    Reads delay s d t ↔ s.ahead.kind = .ident ∧
      Delay.IsWritten s.current.literal s.ahead.literal d ∧ t = s.advance := by
  rw [delay, reads_current_bind]
  constructor
  · intro h
    split at h
    · exact absurd h not_reads_fail
    · rename_i n hn
      simp only [reads_ahead_bind, reads_ite, not_reads_fail, and_false, false_or,
        reads_advance_bind] at h
      obtain ⟨hk, h⟩ := h
      split at h
      · exact absurd h not_reads_fail
      · rename_i u hu
        split at h
        · exact absurd h not_reads_fail
        · rename_i d' hd
          obtain ⟨rfl, rfl⟩ := reads_pure.mp h
          obtain ⟨hamount, hlt⟩ := Delay.amount_eq_ok_iff.mp hn
          obtain ⟨hwritten, hsymbol⟩ := TimeUnit.ofSymbol?_eq_some_iff.mp hu
          exact ⟨Decidable.not_not.mp hk, ⟨n, u, hamount, hlt, hwritten, hsymbol,
            Delay.of?_eq_some_iff.mp hd⟩, rfl⟩
  · rintro ⟨hk, ⟨n, u, hamount, hlt, hwritten, hsymbol, hd⟩, rfl⟩
    simp [Delay.amount_eq_ok_iff.mpr ⟨hamount, hlt⟩, hk,
      TimeUnit.ofSymbol?_eq_some_iff.mpr ⟨hwritten, hsymbol⟩, Delay.of?_eq_some_iff.mpr hd]

end Grammar
end CircuitText
