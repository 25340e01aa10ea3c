import CircuitText.Proofs.Runs
import CircuitText.Text.Quoted

/-!
# Quoted texts can be read from the right

A quoted text shows each character in a way that tells it apart from what follows, so the text
between the quotes determines what is quoted.  And its opening quote can be found from its closing
quote: a double quote inside is guarded by a backslash right before it, so the opening quote is the
nearest one to the left that has none, provided that what stands before the quoted text does not end
in a backslash.

* `Hexadecimal.toDigits_inj` --- hexadecimal digits;
* `Text.shown_append_inj`, `Text.flatMap_shown_inj` --- what is between the quotes;
* `Text.Guarded`, `Text.append_guarded_inj` --- marks with another character right before them, and
  how the last mark without one splits a text;
* `Text.append_quoted_inj` --- finding the opening quote.
-/

namespace CircuitText

/-! ## Hexadecimal digits -/

namespace Hexadecimal

/-- The digits of a number are digits. -/
theorem exists_eq_digitChar {n : Nat} : ∀ c ∈ Nat.toDigits 16 n, ∃ k < 16, c = k.digitChar := by
  induction n using Nat.strongRecOn with
  | ind n ih =>
    rw [Nat.toDigits_eq_if (by decide)]
    split
    · rename_i hlt
      exact List.forall_mem_singleton.mpr ⟨n, hlt, rfl⟩
    · rename_i hle
      refine List.forall_mem_append.mpr ⟨ih _ (by omega), ?_⟩
      exact List.forall_mem_singleton.mpr ⟨n % 16, by omega, rfl⟩

theorem digitChar_inj {m n : Nat} (hm : m < 16) (hn : n < 16) (h : m.digitChar = n.digitChar) :
    m = n := by
  have hall : ∀ m < 16, ∀ n < 16, m.digitChar = n.digitChar → m = n := by decide
  exact hall m hm n hn h

/-- A number is determined by its digits. -/
theorem toDigits_inj {m n : Nat} (h : Nat.toDigits 16 m = Nat.toDigits 16 n) : m = n := by
  induction m using Nat.strongRecOn generalizing n with
  | ind m ih =>
    rw [Nat.toDigits_eq_if (by decide), Nat.toDigits_eq_if (n := n) (by decide)] at h
    split at h
    · rename_i hm
      split at h
      · rename_i hn
        exact digitChar_inj hm hn (List.cons.inj h).1
      · have hlength := congrArg List.length h
        have hpos := Nat.length_toDigits_pos (b := 16) (n := n / 16)
        simp only [List.length_append, List.length_cons, List.length_nil] at hlength
        omega
    · rename_i hm
      split at h
      · have hlength := congrArg List.length h
        have hpos := Nat.length_toDigits_pos (b := 16) (n := m / 16)
        simp only [List.length_append, List.length_cons, List.length_nil] at hlength
        omega
      · obtain ⟨hfront, hlast⟩ := List.append_inj' h rfl
        have hdiv := ih (m / 16) (by omega) hfront
        have hmod := digitChar_inj (Nat.mod_lt m (by decide)) (Nat.mod_lt n (by decide))
          (List.cons.inj hlast).1
        omega

end Hexadecimal

namespace Text

/-! ## What is between the quotes -/

/-- The letter that is shown behind a backslash for a character, if there is one. -/
def shortEscape? (c : Char) : Option Char :=
  match c with
  | '\x00' => some '0'
  | '\t' => some 't'
  | '\r' => some 'r'
  | '\n' => some 'n'
  | '"' => some '"'
  | '\\' => some '\\'
  | _ => none

theorem shortEscape?_inj {c d e : Char} (hc : shortEscape? c = some e)
    (hd : shortEscape? d = some e) : c = d := by
  unfold shortEscape? at hc
  split at hc <;> simp only [Option.some.injEq, reduceCtorEq] at hc <;> subst hc <;>
    (unfold shortEscape? at hd; split at hd <;> simp_all)

/-- No letter behind a backslash is that of a code point. -/
theorem shortEscape?_ne_u {c e : Char} (h : shortEscape? c = some e) : e ≠ 'u' := by
  unfold shortEscape? at h
  split at h <;> simp only [Option.some.injEq, reduceCtorEq] at h <;> (subst h; decide)

theorem shown_of_shortEscape? {c e : Char} (h : shortEscape? c = some e) :
    shown c = ['\\', e] := by
  unfold shortEscape? at h
  split at h <;> simp only [Option.some.injEq, reduceCtorEq] at h <;> (subst h; rfl)

/-- What has no letter of its own is shown as it is or by its code point. -/
theorem shown_of_no_shortEscape {c : Char} (h : shortEscape? c = none) :
    shown c = [c] ∨ shown c = codePoint c := by
  unfold shown
  split
  case h_7 =>
    split
    · exact .inl rfl
    · exact .inr rfl
  all_goals exact absurd h (by decide)

/-- A character is shown by a letter behind a backslash, as it is, or by its code point. -/
theorem shown_cases (c : Char) :
    (∃ e, shortEscape? c = some e ∧ shown c = ['\\', e]) ∨
      (c ≠ '\\' ∧ c ≠ '"' ∧ shown c = [c]) ∨ shown c = codePoint c := by
  cases h : shortEscape? c with
  | some e => exact .inl ⟨e, rfl, shown_of_shortEscape? h⟩
  | none =>
    rcases shown_of_no_shortEscape h with hshown | hshown
    · refine .inr (.inl ⟨?_, ?_, hshown⟩) <;>
        (rintro rfl; exact absurd h (by decide))
    · exact .inr (.inr hshown)

theorem hexadecimal_ne {c : Char} {n : Nat} (hc : c ∈ Nat.toDigits 16 n) :
    c ≠ '\x7d' ∧ c ≠ '"' := by
  obtain ⟨k, hk, rfl⟩ := Hexadecimal.exists_eq_digitChar c hc
  have hall : ∀ k < 16, k.digitChar ≠ '\x7d' ∧ k.digitChar ≠ '"' := by decide
  exact hall k hk

theorem codePoint_append_inj {c d : Char} {u v : List Char}
    (h : codePoint c ++ u = codePoint d ++ v) : c = d ∧ u = v := by
  simp only [codePoint, List.append_assoc, List.append_cancel_left_eq] at h
  have hdigits : ∀ {n : Nat}, ∀ c ∈ Nat.toDigits 16 n, (c != '\x7d') = true := fun c hc =>
    bne_iff_ne.mpr (hexadecimal_ne hc).1
  obtain ⟨hcode, hrest⟩ := append_inj_of_stops (p := (· != '\x7d')) h hdigits hdigits
    (by simp) (by simp)
  refine ⟨Char.toNat_inj.mp (Hexadecimal.toDigits_inj hcode), ?_⟩
  exact List.append_cancel_left hrest

/-- What is shown of a character tells it apart from what follows. -/
theorem shown_append_inj {c d : Char} {u v : List Char} (h : shown c ++ u = shown d ++ v) :
    c = d ∧ u = v := by
  rcases shown_cases c with ⟨e, he, hc⟩ | ⟨hc₁, -, hc⟩ | hc <;>
    rcases shown_cases d with ⟨e', he', hd⟩ | ⟨hd₁, -, hd⟩ | hd <;> rw [hc, hd] at h
  · simp only [List.cons_append, List.nil_append, List.cons.injEq, true_and] at h
    obtain ⟨rfl, rfl⟩ := h
    exact ⟨shortEscape?_inj he he', rfl⟩
  · exact absurd (List.cons.inj h).1.symm hd₁
  · exact absurd (List.cons.inj (List.cons.inj h).2).1 (shortEscape?_ne_u he)
  · exact absurd (List.cons.inj h).1 hc₁
  · exact List.cons.inj h
  · exact absurd (List.cons.inj h).1 hc₁
  · exact absurd (List.cons.inj (List.cons.inj h).2).1.symm (shortEscape?_ne_u he')
  · exact absurd (List.cons.inj h).1.symm hd₁
  · exact codePoint_append_inj h

theorem shown_ne_nil (c : Char) : shown c ≠ [] := by
  rcases shown_cases c with ⟨e, -, hc⟩ | ⟨-, -, hc⟩ | hc <;> rw [hc] <;> simp [codePoint]

/-- The text between the quotes determines what is quoted. -/
theorem flatMap_shown_inj {x y : List Char} (h : x.flatMap shown = y.flatMap shown) : x = y := by
  induction x generalizing y with
  | nil =>
    cases y with
    | nil => rfl
    | cons d y => simp [shown_ne_nil] at h
  | cons c x ih =>
    cases y with
    | nil => simp [shown_ne_nil] at h
    | cons d y =>
      rw [List.flatMap_cons, List.flatMap_cons] at h
      obtain ⟨rfl, hrest⟩ := shown_append_inj h
      rw [ih hrest]

/-! ## Marks that are guarded -/

section Guarded

variable {mark guard : Char} {a b s t : List Char}

/-- Each `mark` has a `guard` right before it. -/
def Guarded (mark guard : Char) (s : List Char) : Prop :=
  ∀ a b, s = a ++ mark :: b → a.getLast? = some guard

theorem guarded_of_notMem (h : mark ∉ s) : Guarded mark guard s := by
  rintro a b rfl
  exact absurd (List.mem_append_right a (List.mem_cons_self ..)) h

theorem Guarded.append (hs : Guarded mark guard s) (ht : Guarded mark guard t) :
    Guarded mark guard (s ++ t) := by
  intro a b h
  rcases List.append_eq_append_iff.mp h with ⟨c, rfl, hc⟩ | ⟨c, rfl, hc⟩
  · have hlast := ht c b hc
    rw [List.getLast?_append, hlast]
    rfl
  · cases c with
    | nil =>
      rw [List.nil_append] at hc
      have hlast := ht [] b hc.symm
      simp at hlast
    | cons d c =>
      simp only [List.cons_append, List.cons.injEq] at hc
      obtain ⟨rfl, rfl⟩ := hc
      exact hs a c rfl

/-- A text without marks that ends in a guard guards the mark behind it. -/
theorem guarded_append_mark (h : mark ∉ s) (hlast : s.getLast? = some guard) :
    Guarded mark guard (s ++ [mark]) := by
  intro a b heq
  rcases List.append_eq_append_iff.mp heq with ⟨c, rfl, hc⟩ | ⟨c, rfl, hc⟩
  · cases c with
    | nil => simpa using hlast
    | cons d c => simp at hc
  · cases c with
    | nil => simpa using hlast
    | cons d c =>
      simp only [List.cons_append, List.cons.injEq] at hc
      exact absurd (List.mem_append_right a (hc.1 ▸ List.mem_cons_self ..)) h

/-- A mark without a guard is not to the left of one with a guarded text behind it. -/
theorem eq_of_append_guarded (h : a ++ mark :: s = b ++ mark :: t) (hs : Guarded mark guard s)
    (hb : b.getLast? ≠ some guard) (hle : a.length ≤ b.length) : a = b := by
  rcases List.append_eq_append_iff.mp h with ⟨c, rfl, hc⟩ | ⟨c, rfl, hc⟩
  · cases c with
    | nil => simp
    | cons d c =>
      simp only [List.cons_append, List.cons.injEq] at hc
      obtain ⟨rfl, rfl⟩ := hc
      have hlast := hs c t rfl
      rw [List.getLast?_append, List.getLast?_cons, hlast] at hb
      exact absurd rfl hb
  · have hnil : c = [] := by
      rw [← List.length_eq_zero_iff]
      rw [List.length_append] at hle
      omega
    simp [hnil]

/-- The last mark without a guard splits a text in one way. -/
theorem append_guarded_inj (h : a ++ mark :: s = b ++ mark :: t) (hs : Guarded mark guard s)
    (ht : Guarded mark guard t) (ha : a.getLast? ≠ some guard) (hb : b.getLast? ≠ some guard) :
    a = b ∧ s = t := by
  have heq : a = b := by
    rcases Nat.le_total a.length b.length with hle | hle
    · exact eq_of_append_guarded h hs hb hle
    · exact (eq_of_append_guarded h.symm ht ha hle).symm
  subst heq
  exact ⟨rfl, (List.cons.inj (List.append_cancel_left h)).2⟩

end Guarded

/-! ## Finding the opening quote -/

theorem guarded_shown (c : Char) : Guarded '"' '\\' (shown c) := by
  rcases shown_cases c with ⟨e, -, hc⟩ | ⟨-, hne, hc⟩ | hc <;> rw [hc]
  · intro a b h
    rcases a with _ | ⟨d, _ | ⟨d', a⟩⟩
    · simp at h
    · simp only [List.cons_append, List.nil_append, List.cons.injEq] at h
      rw [← h.1]
      rfl
    · simp at h
  · exact guarded_of_notMem (by simpa using hne.symm)
  · refine guarded_of_notMem ?_
    simp only [codePoint, List.mem_append, not_or]
    exact ⟨⟨by decide, fun hmem => (hexadecimal_ne hmem).2 rfl⟩, by decide⟩

theorem guarded_flatMap_shown (x : List Char) : Guarded '"' '\\' (x.flatMap shown) := by
  induction x with
  | nil => exact guarded_of_notMem (by simp)
  | cons c x ih =>
    rw [List.flatMap_cons]
    exact (guarded_shown c).append ih

/-- A quoted text can be cut off from the right, if what is before it ends in no backslash. -/
theorem append_quoted_inj {a b x y : List Char} (h : a ++ quoted x = b ++ quoted y)
    (ha : a.getLast? ≠ some '\\') (hb : b.getLast? ≠ some '\\') : a = b ∧ x = y := by
  have h : a ++ '"' :: x.flatMap shown = b ++ '"' :: y.flatMap shown := by
    rw [quoted, quoted, ← List.append_assoc, ← List.append_assoc] at h
    exact (List.append_inj' h rfl).1
  obtain ⟨heq, hshown⟩ :=
    append_guarded_inj h (guarded_flatMap_shown x) (guarded_flatMap_shown y) ha hb
  exact ⟨heq, flatMap_shown_inj hshown⟩

end Text
end CircuitText
