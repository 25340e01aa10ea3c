import CircuitText.Proofs.Runs
import CircuitText.Token.Lexer

/-!
# Gaps between tokens

A gap is made of blanks and comments.  A comment begins with `#` and ends before a line feed or at
the end of the text, so whether a stretch of text is a gap depends on what follows it: `IsGap gap
after` says that `gap` is one when `after` is the rest of the text.

The lexer passes over a gap in two parts, the first part right behind a token and the second part
before the next one.  Both are gaps, and so are the two together.

* `IsGap`, `IsGap.append` --- gaps;
* `isGap_splitGap`, `isGap_splitTrailing` --- what the lexer passes over is a gap;
* `IsGap.of_append_lineFeed` --- the line feed that is read behind every text makes no difference.
-/

namespace CircuitText

/-- A comment may end here: a line feed follows, or nothing. -/
def EndsLine (after : List Char) : Prop := ∀ c ∈ after.head?, c = '\n'

/-- A stretch of blanks and comments, with the text that follows it. -/
inductive IsGap : (gap after : List Char) → Prop
  | nil {after : List Char} : IsGap [] after
  | blank {c : Char} {gap after : List Char} (hblank : Text.isBlank c = true)
      (more : IsGap gap after) : IsGap (c :: gap) after
  | comment {comment gap after : List Char} (hcomment : '\n' ∉ comment)
      (hends : EndsLine (gap ++ after)) (more : IsGap gap after) :
      IsGap ('#' :: (comment ++ gap)) after

variable {gap after : List Char}

/-- A gap stays one if a comment at its end still ends. -/
theorem IsGap.imp {other : List Char} (h : IsGap gap after)
    (himp : EndsLine after → EndsLine other) : IsGap gap other := by
  induction h with
  | nil => exact .nil
  | blank hblank more ih => exact .blank hblank (ih himp)
  | @comment comment gap after hcomment hends more ih =>
    refine .comment hcomment ?_ (ih himp)
    cases gap with
    | nil => exact himp hends
    | cons c gap => exact hends

/-- Only the first character behind a gap matters. -/
theorem IsGap.congr {other : List Char} (h : IsGap gap after) (hhead : after.head? = other.head?) :
    IsGap gap other :=
  h.imp fun hends => by rwa [EndsLine, ← hhead]

/-- Two gaps in a row are a gap. -/
theorem IsGap.append {first second : List Char} (h : IsGap first (second ++ after))
    (hsecond : IsGap second after) : IsGap (first ++ second) after := by
  generalize hrest : second ++ after = rest at h
  induction h with
  | nil => exact hsecond
  | blank hblank more ih => exact .blank hblank (ih hrest)
  | @comment comment gap rest hcomment hends more ih =>
    rw [List.cons_append, List.append_assoc]
    refine .comment hcomment ?_ (ih hrest)
    rwa [List.append_assoc, hrest]

theorem isGap_of_blanks (h : ∀ c ∈ gap, Text.isBlank c = true) : IsGap gap after := by
  induction gap with
  | nil => exact .nil
  | cons c gap ih =>
    obtain ⟨hc, hgap⟩ := List.forall_mem_cons.mp h
    exact .blank hc (ih hgap)

/-! ## What the lexer passes over -/

/-- In front of a token the lexer passes over a gap, or over the rest of a comment and a gap. -/
theorem isGap_splitGap_of (cs : List Char) :
    IsGap (splitGap false cs).1 (splitGap false cs).2 ∧
      ∃ comment gap, (splitGap true cs).1 = comment ++ gap ∧ '\n' ∉ comment ∧
        EndsLine (gap ++ (splitGap true cs).2) ∧ IsGap gap (splitGap true cs).2 := by
  induction cs with
  | nil => exact ⟨.nil, [], [], rfl, by simp, by simp [EndsLine, splitGap], .nil⟩
  | cons c cs ih =>
    obtain ⟨hgap, comment, gap, heq, hcomment, hends, hrest⟩ := ih
    constructor
    · by_cases hc : c = '#'
      · subst hc
        simp only [splitGap, beq_self_eq_true, Bool.or_true, Bool.true_or, if_true]
        rw [heq]
        exact .comment hcomment hends hrest
      · by_cases hblank : Text.isBlank c = true
        · simp only [splitGap, Bool.false_and, Bool.false_or, beq_eq_false_iff_ne.mpr hc, hblank,
            if_true]
          exact .blank hblank hgap
        · simp only [splitGap, Bool.false_and, Bool.false_or, beq_eq_false_iff_ne.mpr hc, hblank]
          exact .nil
    · by_cases hc : c = '\n'
      · subst hc
        have hflag : (true && ('\n' : Char) != '\n' || ('\n' : Char) == '#') = false := by decide
        simp only [splitGap, hflag, Text.isBlank_lineFeed, Bool.or_true, if_true]
        exact ⟨[], _, rfl, by simp, by simp [EndsLine], .blank Text.isBlank_lineFeed hgap⟩
      · have hflag : (true && c != '\n' || c == '#') = true := by simp [hc]
        simp only [splitGap, hflag, Bool.true_or, if_true]
        exact ⟨c :: comment, gap, by rw [heq]; rfl, by simp [hcomment, Ne.symm hc], hends, hrest⟩

theorem isGap_splitGap (cs : List Char) : IsGap (splitGap false cs).1 (splitGap false cs).2 :=
  (isGap_splitGap_of cs).1

/-- A text that is passed over to its end is a gap. -/
theorem isGap_of_splitGap {cs : List Char} (h : (splitGap false cs).2 = []) : IsGap cs [] := by
  have hgap := isGap_splitGap cs
  have hcs := append_splitGap false cs
  rw [h, List.append_nil] at hcs
  rwa [h, hcs] at hgap

theorem isGap_splitComment (cs : List Char) : IsGap (splitComment cs).1 (splitComment cs).2 := by
  cases cs with
  | nil => exact .nil
  | cons c cs =>
    simp only [splitComment]
    split
    · rename_i hc
      rw [hc, ← List.append_nil (cs.takeWhile _)]
      refine .comment ?_ ?_ .nil
      · intro hmem
        simpa using Text.of_mem_takeWhile hmem
      · intro d hd
        simpa using Text.stops_dropWhile (p := (· != '\n')) cs d hd
    · exact .nil

/-- Behind a token the lexer passes over a gap. -/
theorem isGap_splitTrailing (cs : List Char) :
    IsGap (splitTrailing cs).1 (splitTrailing cs).2 := by
  refine IsGap.append (isGap_of_blanks fun c hc => ?_) (isGap_splitComment _)
  have h := Text.of_mem_takeWhile hc
  simp only [isInlineBlank, Bool.and_eq_true] at h
  exact h.1

/-- What is left in front of a token begins with no blank. -/
theorem head_splitGap (inComment : Bool) (cs : List Char) :
    ∀ c ∈ (splitGap inComment cs).2.head?, Text.isBlank c = false ∧ c ≠ '#' := by
  induction cs generalizing inComment with
  | nil => simp [splitGap]
  | cons c cs ih =>
    simp only [splitGap]
    split
    · exact ih _
    · rename_i h
      simp only [Bool.or_eq_true, not_or, Bool.not_eq_true] at h
      simp only [List.head?_cons, Option.mem_def, Option.some.injEq, forall_eq']
      exact ⟨h.2, by simpa using h.1.2⟩

/-- Nothing is passed over in front of a lexeme. -/
theorem splitGap_of_word {c : Char} {cs : List Char} (hblank : Text.isBlank c = false)
    (hcomment : c ≠ '#') : splitGap false (c :: cs) = ([], c :: cs) := by
  simp [splitGap, hblank, hcomment]

/-! ## The line feed behind the text -/

/-- A gap up to the line feed behind a text is a gap up to the end of the text. -/
theorem IsGap.of_append_lineFeed (h : IsGap (gap ++ ['\n']) []) : IsGap gap [] := by
  generalize hall : gap ++ ['\n'] = all at h
  generalize hnil : ([] : List Char) = rest at h
  induction h generalizing gap with
  | nil => simp at hall
  | blank hblank more ih =>
    cases gap with
    | nil => exact .nil
    | cons c gap =>
      simp only [List.cons_append, List.cons.injEq] at hall
      obtain ⟨rfl, hall⟩ := hall
      exact .blank hblank (ih hall hnil)
  | @comment comment more rest hcomment hends hmore ih =>
    subst hnil
    cases gap with
    | nil => simp at hall
    | cons c gap =>
      simp only [List.cons_append, List.cons.injEq] at hall
      obtain ⟨rfl, hall⟩ := hall
      -- the line feed is no part of the comment
      rcases List.eq_nil_or_concat more with rfl | ⟨gap', d, rfl⟩
      · rw [List.append_nil] at hall
        exact absurd (hall ▸ List.mem_append_right gap (List.mem_singleton.mpr rfl)) hcomment
      · rw [List.concat_eq_append, ← List.append_assoc] at hall
        obtain ⟨rfl, hd⟩ := List.append_inj' hall rfl
        obtain rfl : '\n' = d := by simpa using hd
        refine .comment hcomment ?_ (ih (by simp) rfl)
        cases gap' with
        | nil => simp [EndsLine]
        | cons e gap' => simpa [EndsLine] using hends

/-- A gap that ends with a line feed is one whatever follows it. -/
theorem IsGap.append_of_lineFeed (h : IsGap (gap ++ ['\n']) []) : IsGap (gap ++ ['\n']) after := by
  have hgap : IsGap gap (['\n'] ++ after) := h.of_append_lineFeed.imp fun _ => by simp [EndsLine]
  exact hgap.append (isGap_of_blanks (by simp [Text.isBlank_lineFeed]))

end CircuitText
