import CircuitText.Proofs.Lexing.Layout

/-!
# Where a string ends

Whether a quote closes the string before it depends on the character right in front of the quote,
and, if that is a backslash, on all quotes behind it.  `Closes quote prev body rest` says without
any scanning that the quote between `body` and `rest` closes a string: either it is the first that
does not stand right after a backslash, or all later quotes stand after one and it is the last of
them.  The opening quote is no backslash, so a string that is closed at once is empty.

The scan goes on from any character, not only from an opening quote.  Hence `prev`, the character in
front of the text: it is what the flag of the scan remembers, and the induction is along the text
with `prev` moving on.

* `Masked` --- all quotes of a text stand right after a backslash;
* `Closes`, `splitString?_eq_some_iff` --- the closing quote, and that the scan finds it;
* `Lexeme.read_of_closes`, `Lexeme.read_of_notMem` --- the lexeme at a quote;
* `Lexer.nextToken_of_quote` --- the token at a quote.
-/

namespace CircuitText

namespace Pattern

variable {quote prev c : Char} {cs body rest : List Char}

/-- Every quote in `cs` stands right after a backslash; `prev` is the character in front of `cs`. -/
def Masked (quote prev : Char) (cs : List Char) : Prop :=
  ∀ before after, cs = before ++ quote :: after → (prev :: before).getLast? = some '\\'

/-- The quote between `body` and `rest` closes a string; `prev` is the character in front of
`body`. -/
inductive Closes (quote prev : Char) (body rest : List Char) : Prop
  /-- The quote is the first that does not stand right after a backslash. -/
  | bare (hbody : Masked quote prev body) (hlast : (prev :: body).getLast? ≠ some '\\')
  /-- No quote stands elsewhere than right after a backslash, and there is no later one. -/
  | masked (hall : Masked quote prev (body ++ quote :: rest)) (hrest : quote ∉ rest)

theorem masked_of_notMem (h : quote ∉ cs) : Masked quote prev cs := by
  rintro before after rfl
  simp at h

theorem masked_cons :
    Masked quote prev (c :: cs) ↔ (c = quote → prev = '\\') ∧ Masked quote c cs := by
  constructor
  · intro h
    refine ⟨fun hc => ?_, fun before after heq => ?_⟩
    · simpa using h [] cs (by rw [hc]; rfl)
    · simpa using h (c :: before) after (by rw [heq]; rfl)
  · rintro ⟨hc, hcs⟩ before after heq
    cases before with
    | nil =>
      obtain ⟨rfl, -⟩ := List.cons.inj heq
      simp [hc rfl]
    | cons d before =>
      obtain ⟨rfl, rfl⟩ := List.cons.inj heq
      simpa using hcs before after rfl

/-- A quote closes a string at once unless it stands after a backslash and there is a later one. -/
theorem closes_nil :
    Closes quote prev [] rest ↔ (prev = '\\' → quote ∉ rest) := by
  constructor
  · rintro (⟨-, hlast⟩ | ⟨-, hrest⟩) hprev
    · simp [hprev] at hlast
    · exact hrest
  · intro h
    by_cases hprev : prev = '\\'
    · exact .masked (masked_cons.mpr ⟨fun _ => hprev, masked_of_notMem (h hprev)⟩) (h hprev)
    · exact .bare (masked_of_notMem (by simp)) (by simpa using hprev)

theorem closes_cons :
    Closes quote prev (c :: body) rest ↔ (c = quote → prev = '\\') ∧ Closes quote c body rest := by
  constructor
  · rintro (⟨hbody, hlast⟩ | ⟨hall, hrest⟩)
    · obtain ⟨hc, hbody⟩ := masked_cons.mp hbody
      exact ⟨hc, .bare hbody (by simpa using hlast)⟩
    · obtain ⟨hc, hall⟩ := masked_cons.mp hall
      exact ⟨hc, .masked hall hrest⟩
  · rintro ⟨hc, ⟨hbody, hlast⟩ | ⟨hall, hrest⟩⟩
    · exact .bare (masked_cons.mpr ⟨hc, hbody⟩) (by simpa using hlast)
    · exact .masked (masked_cons.mpr ⟨hc, hall⟩) hrest

/-- Every quote before the one that closes a string stands behind a backslash. -/
theorem Closes.masked_body (h : Closes quote prev body rest) : Masked quote prev body := by
  rcases h with ⟨hbody, -⟩ | ⟨hall, -⟩
  · exact hbody
  · intro before after heq
    exact hall before (after ++ quote :: rest) (by rw [heq, List.append_assoc]; rfl)

/-! ## The scan -/

section Scan

variable {afterBackslash : Bool}

theorem splitString?_eq_singleton_iff :
    splitString? quote afterBackslash (c :: cs) = some ([quote], rest) ↔
      c = quote ∧ cs = rest ∧ (afterBackslash = true → quote ∉ rest) := by
  by_cases hc : c = quote
  · subst hc
    cases afterBackslash with
    | false => simp [splitString?]
    | true =>
      cases h : splitString? c false cs with
      | none =>
        have hnone := splitString?_eq_none_iff.mp h
        simp only [splitString?, if_true, h, Option.some.injEq, Prod.mk.injEq, true_and,
          true_implies]
        exact ⟨fun heq => ⟨heq, heq ▸ hnone⟩, And.left⟩
      | some found =>
        obtain ⟨text, after⟩ := found
        obtain ⟨body, rfl⟩ := Lexeme.exists_body_of_splitString? h
        have hmem : c ∈ cs := by
          rw [← append_of_splitString? h]
          simp
        simp only [splitString?, if_true, h, Option.some.injEq, Prod.mk.injEq, List.cons.injEq,
          List.append_eq_nil_iff, true_and, true_implies]
        constructor
        · simp
        · rintro ⟨rfl, hrest⟩
          exact absurd hmem hrest
  · rw [splitString?, if_neg hc]
    split <;> simp [hc]

/-- The scan goes on after a quote only if it stands after a backslash. -/
theorem splitString?_eq_cons_iff {d : Char} (hquote : quote ≠ '\\') :
    splitString? quote afterBackslash (c :: cs) = some (d :: (body ++ [quote]), rest) ↔
      c = d ∧ (d = quote → afterBackslash = true) ∧
        splitString? quote (d = '\\') cs = some (body ++ [quote], rest) := by
  by_cases hd : c = d
  · subst hd
    by_cases hc : c = quote
    · subst hc
      rw [splitString?, if_pos rfl, decide_eq_false hquote]
      cases afterBackslash with
      | false => simp
      | true => cases splitString? c false cs <;> simp [Prod.ext_iff]
    · rw [splitString?, if_neg hc]
      cases splitString? quote (c = '\\') cs <;> simp [hc, Prod.ext_iff]
  · refine iff_of_false (fun h => hd ?_) (fun h => hd h.1)
    exact (List.cons.inj (append_of_splitString? h)).1.symm

/-- The scan ends a string at the quote that closes it. -/
theorem splitString?_eq_some_iff (hquote : quote ≠ '\\') :
    splitString? quote (prev = '\\') cs = some (body ++ [quote], rest) ↔
      cs = body ++ quote :: rest ∧ Closes quote prev body rest := by
  induction body generalizing prev cs with
  | nil =>
    cases cs with
    | nil => simp [splitString?]
    | cons c cs =>
      rw [List.nil_append, splitString?_eq_singleton_iff, closes_nil]
      simp [and_assoc]
  | cons d body ih =>
    cases cs with
    | nil => simp [splitString?]
    | cons c cs =>
      rw [List.cons_append, splitString?_eq_cons_iff hquote, ih, closes_cons]
      simp [and_assoc, and_left_comm]

/-- Where there is a quote, some quote closes the string. -/
theorem exists_closes (hquote : quote ≠ '\\') (h : quote ∈ cs) :
    ∃ body rest, cs = body ++ quote :: rest ∧ Closes quote prev body rest := by
  cases hfound : splitString? quote (prev = '\\') cs with
  | none => exact absurd h (splitString?_eq_none_iff.mp hfound)
  | some found =>
    obtain ⟨text, rest⟩ := found
    obtain ⟨body, rfl⟩ := Lexeme.exists_body_of_splitString? hfound
    exact ⟨body, rest, (splitString?_eq_some_iff hquote).mp hfound⟩

end Scan

end Pattern

/-! ## Lexemes that begin with a quote -/

namespace Lexeme

variable {quote : Char} {cs body rest : List Char}

theorem ne_backslash (hquote : quote = '"' ∨ quote = '\'') : quote ≠ '\\' := by
  rcases hquote with rfl | rfl <;> decide

theorem splitNumber?_quote (hquote : quote = '"' ∨ quote = '\'') :
    Pattern.splitNumber? (quote :: cs) = none := by
  rcases hquote with rfl | rfl <;> exact splitNumber?_eq_none (by decide) (by decide)

/-- A string is read up to the quote that closes it. -/
theorem read_of_closes (hquote : quote = '"' ∨ quote = '\'')
    (h : Pattern.Closes quote quote body rest) :
    read quote (body ++ quote :: rest) =
      ⟨.string, Text.unescape body, quote :: (body ++ [quote]), rest⟩ := by
  have hne := ne_backslash hquote
  have hscan := (Pattern.splitString?_eq_some_iff hne).mpr ⟨rfl, h⟩
  rw [decide_eq_false hne] at hscan
  have hsplit : Pattern.split? (.string quote) (quote :: (body ++ quote :: rest)) =
      some (quote :: (body ++ [quote]), rest) := by
    simp [Pattern.split?, hscan]
  have hnumber : Pattern.splitNumber? (quote :: (body ++ quote :: rest)) = none :=
    splitNumber?_quote hquote
  have hread : read quote (body ++ quote :: rest) = ⟨.string,
      Pattern.literal (.string quote) (quote :: (body ++ [quote])), quote :: (body ++ [quote]),
      rest⟩ := by
    rcases hquote with rfl | rfl
    · exact read_eq_of_split? [⟨.number, .number⟩] (lexemes.drop 2) ⟨.string '"', .string⟩ rfl
        (by simpa [Pattern.split?] using hnumber) hsplit
    · exact read_eq_of_split? [⟨.number, .number⟩, ⟨.string '"', .string⟩] (lexemes.drop 3)
        ⟨.string '\'', .string⟩ rfl (by simpa [Pattern.split?] using hnumber) hsplit
  rw [hread]
  simp [Pattern.literal]

/-- A quote with no other behind it begins no string. -/
theorem read_of_notMem (hquote : quote = '"' ∨ quote = '\'') (h : quote ∉ cs) :
    read quote cs = illegal quote cs := by
  have hnumber : Pattern.splitNumber? (quote :: cs) = none := splitNumber?_quote hquote
  have hstring : Pattern.splitString? quote false cs = none :=
    Pattern.splitString?_eq_none_iff.mpr h
  have hword : startsWord quote = false :=
    startsWord_eq_false (by rcases hquote with rfl | rfl <;> decide)
  have hsymbol : ∀ sort ∈ lexemes, quote ∉ sort.pattern.characters := by
    rcases hquote with rfl | rfl <;> decide
  have hnone : lexemes.findSome? (ofSort? (quote :: cs)) = none := by
    rw [List.findSome?_eq_none_iff]
    rintro ⟨pattern, k⟩ hsort
    rw [ofSort?, Option.map_eq_none_iff]
    cases pattern with
    | number => exact hnumber
    | string other =>
      by_cases hother : quote = other
      · simp [Pattern.split?, ← hother, hstring]
      · simp [Pattern.split?, hother]
    | word => simp [Pattern.split?, hword]
    | symbol first more =>
      have hfirst : quote ≠ first := fun heq =>
        hsymbol _ hsort (by simp [Pattern.characters, heq])
      simp [Pattern.split?, hfirst]
  rw [read, readBy, hnone, Option.getD_none]

end Lexeme

/-! ## Tokens that begin with a quote -/

namespace Lexer

variable {l : Lexer} {quote : Char} {cs : List Char}

/-- The token of a string that stands where the lexer is, and the lexer behind it. -/
def readQuoted (l : Lexer) (quote : Char) (body rest : List Char) : Token × Lexer :=
  (⟨.string, String.ofList (Text.unescape body), ⟨l.place, l.place.after (quote :: body)⟩⟩,
    (l.pass (quote :: (body ++ [quote]), rest)).skipTrailing)

theorem nextToken_of_closes {body rest : List Char} (hquote : quote = '"' ∨ quote = '\'')
    (hrest : l.skipGap.rest = quote :: (body ++ quote :: rest))
    (h : Pattern.Closes quote quote body rest) :
    l.nextToken = l.skipGap.readQuoted quote body rest := by
  simp only [nextToken, hrest, Lexeme.read_of_closes hquote h, readQuoted, Position.ofLast]
  rw [← List.cons_append, List.dropLast_concat]

/-- At a quote there is a string up to the first later quote that does not stand right after a
backslash, whatever else stands between the two.  If every later quote stands right after one, the
string goes up to the last of them and its body ends in that backslash.  If there is no later quote
at all, the quote is illegal, and nothing but the quote. -/
theorem nextToken_of_quote (hquote : quote = '"' ∨ quote = '\'')
    (hrest : l.skipGap.rest = quote :: cs) :
    (∃ body rest, cs = body ++ quote :: rest ∧ Pattern.Masked quote quote body ∧
      body.getLast? ≠ some '\\' ∧ l.nextToken = l.skipGap.readQuoted quote body rest) ∨
    (∃ body rest, cs = body ++ quote :: rest ∧ Pattern.Masked quote quote cs ∧ quote ∉ rest ∧
      body.getLast? = some '\\' ∧ l.nextToken = l.skipGap.readQuoted quote body rest) ∨
    quote ∉ cs ∧ l.nextToken =
      (⟨.illegal, String.singleton quote, .point l.skipGap.place⟩,
        (l.skipGap.pass ([quote], cs)).skipTrailing) := by
  have hne := Lexeme.ne_backslash hquote
  by_cases hmem : quote ∈ cs
  · obtain ⟨body, rest, rfl, hcloses⟩ :
        ∃ body rest, cs = body ++ quote :: rest ∧ Pattern.Closes quote quote body rest :=
      Pattern.exists_closes hne hmem
    have htoken := nextToken_of_closes hquote hrest hcloses
    cases hcloses with
    | bare hbody hlast =>
      exact .inl ⟨body, rest, rfl, hbody, fun h => hlast (by simp [List.getLast?_cons, h]), htoken⟩
    | masked hall hend =>
      -- the opening quote is no backslash, so the one before the closing quote is in the body
      have hbody : body.getLast? = some '\\' := Text.getLast?_of_cons (hall body rest rfl) hne
      exact .inr (.inl ⟨body, rest, rfl, hall, hend, hbody, htoken⟩)
  · refine .inr (.inr ⟨hmem, ?_⟩)
    simp only [nextToken, hrest, Lexeme.read_of_notMem hquote hmem]
    rfl

/-- All later quotes stand after a backslash here, so that the last of them closes the string,
behind a hash and a line feed. -/
theorem nextToken_of_quote_masked :
    let l := ofText " 'a\\'#\n\\'\"".toList "here"
    let cs := "a\\'#\n\\'\"\n".toList
    l.skipGap.rest = '\'' :: cs ∧
      l.nextToken.1 = ⟨.string, "a'#\n\\", ⟨⟨"here", 1, 2⟩, ⟨"here", 2, 2⟩⟩⟩ ∧
      ((∃ body rest, cs = body ++ '\'' :: rest ∧ Pattern.Masked '\'' '\'' body ∧
        body.getLast? ≠ some '\\' ∧ l.nextToken = l.skipGap.readQuoted '\'' body rest) ∨
      (∃ body rest, cs = body ++ '\'' :: rest ∧ Pattern.Masked '\'' '\'' cs ∧ '\'' ∉ rest ∧
        body.getLast? = some '\\' ∧ l.nextToken = l.skipGap.readQuoted '\'' body rest) ∨
      '\'' ∉ cs ∧ l.nextToken =
        (⟨.illegal, String.singleton '\'', .point l.skipGap.place⟩,
          (l.skipGap.pass (['\''], cs)).skipTrailing)) := by
  intro l cs
  have hrest : l.skipGap.rest = '\'' :: cs := by decide +kernel
  exact ⟨hrest, by decide +kernel, nextToken_of_quote (.inr rfl) hrest⟩

end Lexer
end CircuitText
