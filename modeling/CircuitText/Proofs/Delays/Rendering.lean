import CircuitText.Proofs.Rendering.Parts
import CircuitText.Proofs.Writing.Source
import Mathlib.Algebra.Group.Nat.Defs

/-!
# Delays are shown exactly

A delay is shown as a multiple of the largest unit that divides it.  The units are tried from the
largest one on, so the first that divides is the largest; the number in front of it is then as small
as it can be, and for a delay that can be written it stays below the bound of the numbers that can
be written.

* `Delay.shown`, `Delay.render_eq` --- the number and the unit that are shown;
* `Delay.shown_of_ne_zero`, `Delay.shown_eq_microsecond_iff` --- which unit it is;
* `Delay.eq_of_shown_alike` --- no two delays are shown alike;
* `Delay.isWritten_shown`, `Delay.unit_eq_of_isWritten` --- what is shown and what can be written.
-/

namespace CircuitText

/-! ## Numbers without leading zeros -/

namespace Text

/-- A number that is not zero begins with another digit. -/
theorem head?_repr_ne_zero {n : Nat} (h : 0 < n) : n.repr.toList.head? ≠ some '0' := by
  rw [Nat.toList_repr]
  induction n using Nat.strongRecOn with
  | ind n ih =>
    by_cases hlt : n < 10
    · simp [Nat.toDigits_of_lt_base hlt]
      omega
    · have hfront := ih (n / 10) (by omega) (by omega)
      rw [Nat.toDigits_of_base_le (by decide) (by omega)]
      have hsome : (Nat.toDigits 10 (n / 10)).head?.isSome = true := by
        simp [Nat.toDigits_ne_nil]
      rwa [List.head?_append, Option.or_of_isSome hsome]

end Text

/-! ## The unit that is shown -/

namespace Delay

/-- The first unit that is found is the largest one. -/
theorem size_le_of_find? {us : List TimeUnit} {p : TimeUnit → Bool} {u v : TimeUnit}
    (hsorted : us.Pairwise fun u v => v.size ≤ u.size) (hu : us.find? p = some u) (hv : v ∈ us)
    (hp : p v = true) : v.size ≤ u.size := by
  induction us with
  | nil => simp at hv
  | cons w us ih =>
    obtain ⟨hw, hsorted⟩ := List.pairwise_cons.mp hsorted
    cases hpw : p w with
    | true =>
      rw [List.find?_cons_of_pos hpw, Option.some.injEq] at hu
      subst hu
      rcases List.mem_cons.mp hv with rfl | hv
      · exact Nat.le_refl _
      · exact hw v hv
    | false =>
      rw [List.find?_cons_of_neg (by simp [hpw])] at hu
      rcases List.mem_cons.mp hv with rfl | hv
      · simp [hpw] at hp
      · exact ih hsorted hu hv

/-- No larger unit divides a delay than the one it is shown in. -/
theorem size_le_size_unit {d : Delay} {v : TimeUnit} (h : v.size ∣ d.nanoseconds) :
    v.size ≤ d.unit.size := by
  by_cases hv : v = .nanosecond
  · rw [hv]
    exact d.unit.size_pos
  · have hmem : v ∈ ([.hour, .minute, .second, .millisecond, .microsecond] : List TimeUnit) := by
      cases v <;> simp_all
    have hmod : (d.nanoseconds % v.size == 0) = true := by
      simpa using Nat.mod_eq_zero_of_dvd h
    unfold unit
    cases hfind : ([.hour, .minute, .second, .millisecond, .microsecond] : List TimeUnit).find?
        fun u => d.nanoseconds % u.size == 0 with
    | none => exact absurd hmod (by simpa using List.find?_eq_none.mp hfind v hmem)
    | some u => exact size_le_of_find? (by decide) hfind hmem hmod

/-- The number and the unit that a delay is shown with. -/
def shown (d : Delay) : Nat × TimeUnit :=
  if d.nanoseconds = 0 then (0, .second) else (d.nanoseconds / d.unit.size, d.unit)

theorem render_eq (d : Delay) : d.render = d.shown.1.repr ++ d.shown.2.symbol := by
  unfold render shown
  split <;> rfl

theorem shown_mul_size (d : Delay) : d.shown.1 * d.shown.2.size = d.nanoseconds := by
  unfold shown
  split
  · rename_i h
    rw [h, Nat.zero_mul]
  · exact Nat.div_mul_cancel d.size_unit_dvd

variable {d : Delay}

theorem shown_of_ne_zero (h : d.nanoseconds ≠ 0) :
    0 < d.shown.1 ∧ ∀ v : TimeUnit, v.size ∣ d.nanoseconds → v.size ≤ d.shown.2.size := by
  rw [shown, if_neg h]
  exact ⟨Nat.div_pos (Nat.le_of_dvd (Nat.pos_of_ne_zero h) d.size_unit_dvd) d.unit.size_pos,
    fun v => size_le_size_unit⟩

/-- The microsecond is the largest unit of the multiples of a thousand that are no multiples of a
million. -/
theorem shown_eq_microsecond_iff :
    d.shown.2 = .microsecond ↔ 1000 ∣ d.nanoseconds ∧ ¬ 10 ^ 6 ∣ d.nanoseconds := by
  by_cases hzero : d.nanoseconds = 0
  · simp [shown, hzero]
  · have hdvd : d.shown.2.size ∣ d.nanoseconds := ⟨d.shown.1, by
      rw [Nat.mul_comm, d.shown_mul_size]⟩
    have hlargest := (shown_of_ne_zero hzero).2
    constructor
    · intro hu
      rw [hu] at hdvd hlargest
      exact ⟨hdvd, fun h => absurd (hlargest .millisecond h) (by decide)⟩
    · rintro ⟨hthousand, hmillion⟩
      have hlarge := hlargest .microsecond hthousand
      have hmillisecond : ∀ u : TimeUnit, TimeUnit.microsecond.size ≤ u.size → u ≠ .microsecond →
          10 ^ 6 ∣ u.size := by
        intro u
        cases u <;> decide
      exact Decidable.byContradiction fun hu =>
        hmillion (Nat.dvd_trans (hmillisecond _ hlarge hu) hdvd)

/-- A number and a unit are told apart by their text. -/
theorem eq_of_repr_append_symbol {m n : Nat} {u v : TimeUnit}
    (h : m.repr ++ u.symbol = n.repr ++ v.symbol) : u = v := by
  have hstops : ∀ u : TimeUnit, Text.Stops Char.isDigit u.symbol.toList := by
    intro u
    cases u <;> exact Text.stops_cons.mpr (by decide)
  have htext := congrArg String.toList h
  rw [String.toList_append, String.toList_append] at htext
  exact TimeUnit.symbol_inj (String.toList_inj.mp (Text.append_inj_of_stops htext
    (fun c => Text.isDigit_of_mem_repr) (fun c => Text.isDigit_of_mem_repr) (hstops u)
    (hstops v)).2)

theorem exists_render_microsecond_iff :
    (∃ n : Nat, d.render = n.repr ++ "µs") ↔ d.shown.2 = .microsecond := by
  rw [render_eq]
  constructor
  · rintro ⟨n, h⟩
    exact eq_of_repr_append_symbol (v := .microsecond) h
  · intro h
    exact ⟨_, by rw [h]; rfl⟩

/-- Delays that are shown alike are equal. -/
theorem eq_of_shown_alike {d d' : Delay} (h : d.render = d'.render) : d = d' :=
  (render_append_inj (u := []) (v := []) (by rw [h])).1

/-! ## What is shown can be read -/

/-- The number that is shown is below the bound, since no larger one can be written. -/
theorem shown_lt_amountLimit (h : d.WellFormed) : d.shown.1 < amountLimit := by
  by_cases hzero : d.nanoseconds = 0
  · simp only [shown, hzero, if_true]
    decide
  · obtain ⟨hn, hu, hd⟩ := amountAndUnit_spec h
    have hle : d.amountAndUnit.2.size ≤ d.shown.2.size :=
      (shown_of_ne_zero hzero).2 _ ⟨d.amountAndUnit.1, by rw [Nat.mul_comm, ← hd]⟩
    refine Nat.lt_of_le_of_lt ?_ hn
    refine Nat.le_of_mul_le_mul_right ?_ d.shown.2.size_pos
    rw [shown_mul_size, hd]
    exact Nat.mul_le_mul_left _ hle

/-- What is shown is a way to write the delay, unless the unit is the microsecond. -/
theorem isWritten_shown (h : d.WellFormed) (hu : d.shown.2 ≠ .microsecond) :
    IsWritten d.shown.1.repr d.shown.2.symbol d := by
  refine ⟨_, _, isAmount_repr _, shown_lt_amountLimit h, ?_, rfl, d.shown_mul_size.symm⟩
  revert hu
  cases d.shown.2 <;> decide

/-- A delay that is shown in microseconds was written in nanoseconds. -/
theorem unit_eq_of_isWritten {number unit : String} (h : IsWritten number unit d)
    (hd : ¬ 10 ^ 6 ∣ d.nanoseconds) : unit = "ns" := by
  obtain ⟨n, u, -, -, hu, rfl, heq⟩ := h
  have hsize : ∀ u ∈ TimeUnit.written, u = .nanosecond ∨ 10 ^ 6 ∣ u.size := by decide
  rcases hsize u hu with rfl | hdvd
  · rfl
  · exact absurd (heq ▸ Nat.dvd_trans hdvd (Nat.dvd_mul_left ..)) hd

end Delay
end CircuitText
