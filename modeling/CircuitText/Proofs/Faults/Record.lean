import CircuitText.Proofs.Faults.Comparison
import CircuitText.Proofs.Parsing.Program

/-!
# What reading adds to the list of faults

Reading takes tokens from the supply, notes the illegal ones among them one after the other, and
when it fails notes one fault more, which is of another sort.  Nothing else happens to the list.

Productions pass this on to each other, whatever they read.  So it is proved by comparing a run with
itself: `recording` says of a state what has been taken and noted since the beginning.

* `Supply.past`, `illegalFaults` --- what is left of a supply, and the faults of illegal tokens;
* `Adds` --- tokens taken and faults noted between two states;
* `adds_program` --- what reading a program takes and notes.
-/

namespace CircuitText

namespace Supply

/-- What is left of the supply after so many tokens. -/
def past (s : Supply) (n : Nat) : Supply :=
  { s with upcoming := s.upcoming.drop n, taken := s.taken + n }

theorem past_past (s : Supply) (m n : Nat) : (s.past m).past n = s.past (m + n) := by
  simp [past, List.drop_drop, Nat.add_assoc]

/-- The end token is not taken off the supply, but it is counted. -/
theorem next_eq_past (s : Supply) : s.next.2 = s.past 1 := by
  cases h : s.upcoming with
  | nil => simp [next_of_nil h, past, h]
  | cons t ts => simp [next_of_cons h, past, h]

end Supply

namespace Grammar

variable {s₀ s : State} {found : List Fault}

/-- The faults of the illegal tokens, in order. -/
def illegalFaults (ts : List Token) : List Fault := (ts.filter (·.kind = .illegal)).map .illegal

theorem illegalFaults_append (ts us : List Token) :
    illegalFaults (ts ++ us) = illegalFaults ts ++ illegalFaults us := by
  simp [illegalFaults]

theorem category_of_mem_illegalFaults {ts : List Token} {f : Fault} (h : f ∈ illegalFaults ts) :
    f.cause.category = .lexical := by
  obtain ⟨t, -, rfl⟩ := List.mem_map.mp h
  rfl

theorem filter_illegalFaults (ts : List Token) :
    (illegalFaults ts).filter (·.cause.category = .lexical) = illegalFaults ts := by
  rw [List.filter_eq_self]
  intro f hf
  simpa using category_of_mem_illegalFaults hf

theorem length_illegalFaults_le (ts : List Token) : (illegalFaults ts).length ≤ ts.length := by
  rw [illegalFaults, List.length_map]
  exact List.length_filter_le ..

/-- The end of a text is not illegal. -/
theorem illegalFaults_take_succ (supply : Supply) (n : Nat) :
    illegalFaults (supply.upcoming.take (n + 1)) =
      illegalFaults (supply.upcoming.take n) ++ illegalFaults [(supply.past n).next.1] := by
  rw [← illegalFaults_append, List.take_add_one, illegalFaults_append, illegalFaults_append]
  cases h : supply.upcoming.drop n with
  | nil =>
    rw [Supply.next_of_nil (s := supply.past n) h]
    have hnone : supply.upcoming[n]? = none := by
      simpa using h
    simp [hnone, illegalFaults, Token.endOfText]
  | cons t ts =>
    rw [Supply.next_of_cons (s := supply.past n) h]
    have hsome : supply.upcoming[n]? = some t := by
      rw [← List.head?_drop, h]
      rfl
    simp [hsome]

/-- Whatever comes in sight is noted if it is illegal. -/
theorem faults_advance_eq (s : State) :
    s.advance.faults = s.faults ++ illegalFaults [s.advance.ahead] := by
  unfold State.advance State.noteIllegal
  dsimp only
  split <;> simp_all [State.note, illegalFaults]

/-- Between the two states some tokens were taken, the illegal ones were noted, and then the faults
`found`. -/
def Adds (s₀ : State) (found : List Fault) (s : State) : Prop :=
  ∃ n, s.supply = s₀.supply.past n ∧
    s.faults = s₀.faults ++ illegalFaults (s₀.supply.upcoming.take n) ++ found

theorem Adds.refl (s : State) : Adds s [] s := ⟨0, rfl, by simp [illegalFaults]⟩

theorem Adds.advance (h : Adds s₀ [] s) : Adds s₀ [] s.advance := by
  obtain ⟨n, hsupply, hfaults⟩ := h
  refine ⟨n + 1, ?_, ?_⟩
  · rw [State.supply_advance, hsupply, Supply.next_eq_past, Supply.past_past]
  · rw [faults_advance_eq, hfaults, State.ahead_advance, hsupply, illegalFaults_take_succ]
    simp

theorem Adds.note (h : Adds s₀ [] s) (f : Fault) : Adds s₀ [f] (s.note f) := by
  obtain ⟨n, hsupply, hfaults⟩ := h
  exact ⟨n, hsupply, by simp [State.note, hfaults]⟩

/-- A run beside itself, and what it took and noted since the state `s₀`. -/
def recording (s₀ : State) : Comparison where
  tokens := Eq
  states s t := s = t ∧ Adds s₀ [] s
  stopped f g s t := f = g ∧ s = t ∧ f.cause.category ≠ .lexical ∧ Adds s₀ [f] s
  kind_eq h := h ▸ rfl
  literal_eq h := h ▸ rfl
  tokens_current h := h.1 ▸ rfl
  tokens_ahead h := h.1 ▸ rfl
  states_advance h := ⟨congrArg State.advance h.1, h.2.advance⟩
  depth_eq h := h.1 ▸ rfl
  states_deeper h := ⟨congrArg State.deeper h.1, h.2⟩
  states_shallower h := ⟨congrArg State.shallower h.1, h.2⟩
  stopped_note h hkl hcause := by
    obtain ⟨rfl, h⟩ := h
    obtain rfl := hkl
    exact ⟨rfl, rfl, hcause, h.note _⟩
  stopped_shallower h := ⟨h.1, congrArg State.shallower h.2.1, h.2.2⟩

/-- Reading a program notes the illegal tokens it takes, and one fault of another sort if it
fails. -/
theorem adds_program (s : State) :
    (∃ p, (program s).result = .ok p) ∧ Adds s [] (program s).after ∨
      ∃ f, (program s).result = .error f ∧ f.cause.category ≠ .lexical ∧
        Adds s [f] (program s).after := by
  have h := (recording s).steady_program s s ⟨rfl, .refl s⟩
  generalize program s = o at h
  cases h with
  | @ok p _ _ _ _ _ _ states => exact .inl ⟨⟨p, rfl⟩, states.2⟩
  | @error f _ _ _ _ _ stopped => exact .inr ⟨f, rfl, stopped.2.2⟩

end Grammar
end CircuitText
