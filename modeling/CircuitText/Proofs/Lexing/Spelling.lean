import CircuitText.Proofs.Runs
import CircuitText.Text.Blank

/-!
# How lexemes are spelled

Whatever follows it, a lexeme is spelled in one of six ways, and its spelling decides its kind and
what it stands for.  `Lexeme.Spells k literal text` lists the six: a number, a string, a name, a
keyword, one of the fixed symbols, or a single character that begins nothing.

* `le_toNat_of_startsWord`, `isBlank_of_startsWord` --- what words begin with;
* `startsWord_of_ascii`, `continuesWord_of_ascii` --- the characters of words in ASCII;
* `IsName` --- the words that can be names;
* `Lexeme.Spells`, `Lexeme.spells_read` --- the spellings, and that each lexeme has one of them;
* `Lexeme.Spells.literal_eq`, `Lexeme.Spells.exists_body` --- all lexemes but strings stand for
  themselves, and strings are between quotes.
-/

namespace CircuitText

/-- A word that can be a name: it begins with a letter, a mark or an underscore, goes on with any of
these, digits, `!` and `?`, and is no keyword. -/
def IsName (word : List Char) : Prop :=
  (∃ c cs, word = c :: cs ∧ startsWord c = true ∧ ∀ d ∈ cs, continuesWord d = true) ∧
    Kind.ofKeyword? (String.ofList word) = none

/-! ## Characters of words -/

section Words

variable {c : Char} {cs : List Char}

/-- A word begins at or above the code point of `A`. -/
theorem le_toNat_of_startsWord (h : startsWord c = true) : 0x41 ≤ c.toNat := by
  rcases Bool.or_eq_true_iff.mp h with hletter | hunderscore
  · exact Text.le_toNat_of_isLetterOrMark hletter
  · rw [beq_iff_eq.mp hunderscore]
    decide

theorem startsWord_eq_false (h : c.toNat < 0x41) : startsWord c = false := by
  rw [← Bool.not_eq_true]
  intro hstarts
  exact absurd (le_toNat_of_startsWord hstarts) (Nat.not_le_of_lt h)

/-- No word begins with a blank. -/
theorem isBlank_of_startsWord (h : startsWord c = true) : Text.isBlank c = false := by
  rcases Bool.or_eq_true_iff.mp h with hletter | hunderscore
  · exact Text.isBlank_of_isLetterOrMark hletter
  · rw [beq_iff_eq.mp hunderscore]
    decide

theorem startsWord_of_ascii (h : c.toNat < 0x80) : startsWord c = (c.isAlpha || c == '_') := by
  rw [startsWord, Text.isLetterOrMark_of_ascii h]

theorem continuesWord_of_ascii (h : c.toNat < 0x80) :
    continuesWord c = (c.isAlpha || c == '_' || c.isDigit || c == '!' || c == '?') := by
  rw [continuesWord, startsWord_of_ascii h]

theorem startsWord_lineFeed : startsWord '\n' = false := startsWord_of_ascii (by decide)

theorem continuesWord_lineFeed : continuesWord '\n' = false := continuesWord_of_ascii (by decide)

theorem startsWord_of_mem_signs (h : c ∈ Text.signs) : startsWord c = false := by
  have hsigns : Text.signs.all (fun d => !(d == '_')) = true := by decide
  rw [startsWord, Text.isLetterOrMark_of_mem_signs h, Bool.false_or]
  simpa using List.all_eq_true.mp hsigns c h

/-- English letters go on with a word. -/
theorem continuesWord_of_all (h : cs.all (fun d => d.toNat < 0x80 && d.isAlpha) = true) :
    ∀ d ∈ cs, continuesWord d = true := by
  intro d hd
  have hletter := List.all_eq_true.mp h d hd
  simp only [Bool.and_eq_true, decide_eq_true_eq] at hletter
  rw [continuesWord_of_ascii hletter.1, hletter.2]
  rfl

end Words

/-- The characters of a symbol; no other shape of lexeme is made of fixed characters. -/
def Pattern.characters : Pattern → List Char
  | .symbol first more => first :: more
  | _ => []

namespace Lexeme

theorem isBlank_of_isDigit {c : Char} (h : c.isDigit = true) :
    Text.isBlank c = false ∧ c ≠ '#' := by
  have hdigits : ∀ n < 58, 48 ≤ n → Text.inRanges n Text.blankRanges = false := by decide
  obtain ⟨hlow, hhigh⟩ := Char.isDigit_iff_toNat.mp h
  refine ⟨hdigits _ (Nat.lt_succ_of_le hhigh) hlow, ?_⟩
  rintro rfl
  exact absurd h (by decide)

/-- No symbol has a blank or a hash in it. -/
theorem isBlank_of_mem_characters {sort : LexemeSort} (hsort : sort ∈ lexemes) :
    ∀ d ∈ sort.pattern.characters, Text.isBlank d = false ∧ d ≠ '#' := by
  have hsymbols : lexemes.all (fun sort => sort.pattern.characters.all fun d =>
      !Text.isBlank d && d != '#') = true := by decide
  intro d hd
  simpa using List.all_eq_true.mp (List.all_eq_true.mp hsymbols _ hsort) d hd

/-- A lexeme of kind `k` is spelled `text` and stands for `literal`. -/
inductive Spells : Kind → (literal text : List Char) → Prop
  | number {sign whole fraction : List Char} (hsign : sign = [] ∨ sign = ['-'] ∨ sign = ['+'])
      (hne : whole ≠ []) (hwhole : ∀ c ∈ whole, c.isDigit = true)
      (hfraction : fraction = [] ∨ ∃ digits, fraction = '.' :: digits ∧ digits ≠ [] ∧
        ∀ c ∈ digits, c.isDigit = true) :
      Spells .number (sign ++ (whole ++ fraction)) (sign ++ (whole ++ fraction))
  | string {quote : Char} {body : List Char} (hquote : quote = '"' ∨ quote = '\'') :
      Spells .string (Text.unescape body) (quote :: (body ++ [quote]))
  | name {text : List Char} (hname : IsName text) : Spells .ident text text
  | keyword {k : Kind} (hk : k ∈ Kind.keywords) : Spells k k.render.toList k.render.toList
  | symbol {first : Char} {more : List Char} {k : Kind}
      (hsort : ⟨.symbol first more, k⟩ ∈ lexemes) : Spells k (first :: more) (first :: more)
  | illegal {c : Char} : Spells .illegal [c] [c]

/-! ## Each lexeme is spelled so -/

/-- Strings stand between quotes of two sorts. -/
theorem quote_of_mem_lexemes {quote : Char} {k : Kind} (h : ⟨.string quote, k⟩ ∈ lexemes) :
    (quote = '"' ∨ quote = '\'') ∧ k = .string := by
  simpa [lexemes, ← or_and_right] using h

/-- The body of a string is read up to a quote, which closes it. -/
theorem exists_body_of_splitString? {quote : Char} {afterBackslash : Bool}
    {cs found rest : List Char}
    (h : Pattern.splitString? quote afterBackslash cs = some (found, rest)) :
    ∃ body, found = body ++ [quote] := by
  induction cs generalizing afterBackslash found rest with
  | nil => simp [Pattern.splitString?] at h
  | cons c cs ih =>
    unfold Pattern.splitString? at h
    split at h
    · rename_i hc
      split at h
      · split at h
        · rename_i hmore
          simp only [Option.some.injEq, Prod.mk.injEq] at h
          obtain ⟨body, rfl⟩ := ih hmore
          exact ⟨c :: body, h.1.symm⟩
        · simp only [Option.some.injEq, Prod.mk.injEq] at h
          exact ⟨[], by rw [← h.1, hc]; rfl⟩
      · simp only [Option.some.injEq, Prod.mk.injEq] at h
        exact ⟨[], by rw [← h.1, hc]; rfl⟩
    · split at h
      · rename_i hmore
        simp only [Option.some.injEq, Prod.mk.injEq] at h
        obtain ⟨body, rfl⟩ := ih hmore
        exact ⟨c :: body, h.1.symm⟩
      · simp at h

theorem spells_number {cs text rest : List Char}
    (h : Pattern.splitNumber? cs = some (text, rest)) : Spells .number text text := by
  have hdigits : ∀ {ds : List Char}, ∀ c ∈ ds.takeWhile Char.isDigit, c.isDigit = true :=
    fun c hc => Text.of_mem_takeWhile hc
  simp only [Pattern.splitNumber?] at h
  split at h
  · simp at h
  · rename_i hne
    simp only [Option.some.injEq, Prod.mk.injEq] at h
    obtain ⟨rfl, -⟩ := h
    refine .number ?_ hne hdigits ?_
    · unfold Pattern.splitSign
      split
      · exact .inl rfl
      · split
        · rename_i hsign
          rcases hsign with rfl | rfl
          · exact .inr (.inl rfl)
          · exact .inr (.inr rfl)
        · exact .inl rfl
    · generalize (Pattern.splitSign cs).2.dropWhile Char.isDigit = ds
      unfold Pattern.splitFraction
      split
      · exact .inl rfl
      · split
        · rename_i hpoint
          obtain ⟨rfl, hsome⟩ := hpoint
          exact .inr ⟨_, rfl, hsome, hdigits⟩
        · exact .inl rfl

theorem spells_word {c : Char} {cs : List Char} {k : Kind} (hc : startsWord c = true)
    (hcs : ∀ d ∈ cs, continuesWord d = true)
    (hk : k = (Kind.ofKeyword? (String.ofList (c :: cs))).getD .ident) :
    Spells k (c :: cs) (c :: cs) := by
  cases hword : Kind.ofKeyword? (String.ofList (c :: cs)) with
  | none =>
    rw [hk, hword]
    exact .name ⟨⟨c, cs, rfl, hc, hcs⟩, hword⟩
  | some kw =>
    rw [hk, hword]
    have hrender : kw.render.toList = c :: cs := by
      rw [Kind.render_of_ofKeyword? hword, String.toList_ofList]
    rw [← hrender]
    exact .keyword (List.mem_of_find?_eq_some hword)

theorem spells_of_split? {sort : LexemeSort} (hsort : sort ∈ lexemes) {cs text rest : List Char}
    (h : sort.pattern.split? cs = some (text, rest)) :
    Spells (sort.kindOf text) (sort.pattern.literal text) text := by
  obtain ⟨pattern, k⟩ := sort
  cases pattern with
  | number =>
    obtain rfl : k = .number := by simpa [lexemes] using hsort
    exact spells_number h
  | string quote =>
    obtain ⟨hquote, rfl⟩ := quote_of_mem_lexemes hsort
    cases cs with
    | nil => simp [Pattern.split?] at h
    | cons c cs =>
      simp only [Pattern.split?] at h
      split at h
      · rename_i hc
        obtain ⟨⟨found, after⟩, hfound, heq⟩ := Option.map_eq_some_iff.mp h
        simp only [Prod.mk.injEq] at heq
        obtain ⟨body, rfl⟩ := exists_body_of_splitString? hfound
        have hliteral : Pattern.literal (.string quote) text = Text.unescape body := by
          rw [← heq.1]
          simp [Pattern.literal]
        rw [hliteral, ← heq.1, hc]
        exact .string hquote
      · simp at h
  | word =>
    obtain rfl : k = .ident := by simpa [lexemes] using hsort
    cases cs with
    | nil => simp [Pattern.split?] at h
    | cons c cs =>
      simp only [Pattern.split?] at h
      split at h
      · rename_i hc
        simp only [Option.some.injEq, Prod.mk.injEq] at h
        rw [← h.1]
        exact spells_word hc (fun d hd => Text.of_mem_takeWhile hd) rfl
      · simp at h
  | symbol first more =>
    cases cs with
    | nil => simp [Pattern.split?] at h
    | cons c cs =>
      simp only [Pattern.split?] at h
      split at h
      · simp only [Option.some.injEq, Prod.mk.injEq] at h
        rw [← h.1]
        exact .symbol hsort
      · simp at h

/-- Each lexeme is spelled in one of the six ways. -/
theorem spells_read (c : Char) (cs : List Char) :
    Spells (read c cs).kind (read c cs).literal (read c cs).text := by
  rcases readBy_cases lexemes c cs with ⟨sort, hsort, h⟩ | h
  · obtain ⟨found, hfound, heq⟩ := Option.map_eq_some_iff.mp h
    rw [read, ← heq]
    exact spells_of_split? hsort hfound
  · rw [read, h]
    exact .illegal

/-! ## The sort that fits -/

section Sorts

variable {c : Char} {cs text rest : List Char}

/-- The first sort of lexeme that fits is read. -/
theorem read_eq_of_split? (before after : List LexemeSort) (sort : LexemeSort)
    (hsorts : lexemes = before ++ sort :: after)
    (hbefore : ∀ s ∈ before, s.pattern.split? (c :: cs) = none)
    (h : sort.pattern.split? (c :: cs) = some (text, rest)) :
    read c cs = ⟨sort.kindOf text, sort.pattern.literal text, text, rest⟩ := by
  have hnone : before.findSome? (ofSort? (c :: cs)) = none := by
    rw [List.findSome?_eq_none_iff]
    intro s hs
    simp [ofSort?, hbefore s hs]
  rw [read, readBy, hsorts, List.findSome?_append, hnone]
  simp [ofSort?, h]

/-- A number begins with a digit or a sign. -/
theorem splitNumber?_eq_none (hdigit : c.isDigit = false) (hsign : c ≠ '-' ∧ c ≠ '+') :
    Pattern.splitNumber? (c :: cs) = none := by
  simp [Pattern.splitNumber?, Pattern.splitSign, hdigit, hsign]

end Sorts

/-! ## What follows from the spelling -/

variable {k : Kind} {literal text : List Char}

/-- Every lexeme but a string stands for itself. -/
theorem Spells.literal_eq (h : Spells k literal text) (hk : k ≠ .string) : literal = text := by
  cases h with
  | string => exact absurd rfl hk
  | _ => rfl

/-- A string stands between two of the same quotes. -/
theorem Spells.exists_body (h : Spells .string literal text) :
    ∃ quote body, (quote = '"' ∨ quote = '\'') ∧ text = quote :: (body ++ [quote]) ∧
      literal = Text.unescape body := by
  generalize hk : Kind.string = k at h
  cases h with
  | string hquote => exact ⟨_, _, hquote, rfl, rfl⟩
  | keyword hkeyword =>
    subst hk
    exact absurd hkeyword (by decide)
  | symbol hsort =>
    have hsymbol : ∀ sort ∈ lexemes, sort.pattern.characters ≠ [] → sort.kind ≠ .string := by
      decide
    exact absurd hk.symm (hsymbol _ hsort (by simp [Pattern.characters]))
  | _ => simp at hk

/-- A number is a sign, digits and a fraction, the first and the last of which may be left out. -/
theorem Spells.exists_parts (h : Spells .number literal text) :
    ∃ sign whole fraction, (sign = [] ∨ sign = ['-'] ∨ sign = ['+']) ∧ whole ≠ [] ∧
      (∀ c ∈ whole, c.isDigit = true) ∧
      (fraction = [] ∨ ∃ digits, fraction = '.' :: digits ∧ digits ≠ [] ∧
        ∀ c ∈ digits, c.isDigit = true) ∧ text = sign ++ (whole ++ fraction) := by
  generalize hk : Kind.number = k at h
  cases h with
  | number hsign hne hwhole hfraction =>
    exact ⟨_, _, _, hsign, hne, hwhole, hfraction, rfl⟩
  | keyword hkeyword =>
    subst hk
    exact absurd hkeyword (by decide)
  | symbol hsort =>
    subst hk
    simp [lexemes] at hsort
  | _ => simp at hk

theorem Spells.isName (h : Spells .ident literal text) : IsName literal := by
  generalize hk : Kind.ident = k at h
  cases h with
  | name hname => exact hname
  | keyword hkeyword =>
    subst hk
    exact absurd hkeyword (by decide)
  | symbol hsort =>
    subst hk
    simp [lexemes] at hsort
  | _ => simp at hk

/-- There are two prefix operators. -/
theorem Spells.prefixOp_cases (h : Spells .prefixOp literal text) :
    literal = ['!'] ∨ literal = ['¬'] := by
  generalize hk : Kind.prefixOp = k at h
  cases h with
  | keyword hkeyword =>
    subst hk
    exact absurd hkeyword (by decide)
  | symbol hsort =>
    subst hk
    simpa [lexemes] using hsort
  | _ => simp at hk

/-- There are six infix operators. -/
theorem Spells.infixOp_cases (h : Spells .infixOp literal text) :
    literal ∈ [['&'], ['|'], ['^'], ['∧'], ['∨'], ['⊻']] := by
  generalize hk : Kind.infixOp = k at h
  cases h with
  | keyword hkeyword =>
    subst hk
    exact absurd hkeyword (by decide)
  | symbol hsort =>
    subst hk
    simpa [lexemes] using hsort
  | _ => simp at hk

/-- No lexeme but a string has a line feed in it, unless it is an illegal one. -/
theorem Spells.lineFeed_notMem (h : Spells k literal text) (hk : k ≠ .string)
    (hillegal : text ≠ ['\n']) : '\n' ∉ text := by
  have hdigit : ∀ {ds : List Char}, (∀ c ∈ ds, c.isDigit = true) → '\n' ∉ ds :=
    fun hds hmem => absurd (hds _ hmem) (by decide)
  cases h with
  | number hsign hne hwhole hfraction =>
    simp only [List.mem_append, not_or]
    refine ⟨?_, hdigit hwhole, ?_⟩
    · rcases hsign with rfl | rfl | rfl <;> decide
    · rcases hfraction with rfl | ⟨digits, rfl, -, hdigits⟩
      · decide
      · simpa using hdigit hdigits
  | string => exact absurd rfl hk
  | name hname =>
    obtain ⟨⟨c, cs, rfl, hc, hcs⟩, -⟩ := hname
    intro hmem
    rcases List.mem_cons.mp hmem with rfl | hmem
    · simp [startsWord_lineFeed] at hc
    · simpa [continuesWord_lineFeed] using hcs _ hmem
  | keyword hk =>
    revert hk
    cases k <;> decide
  | symbol hsort =>
    have hsymbol : ∀ sort ∈ lexemes, '\n' ∉ sort.pattern.characters := by decide
    exact hsymbol _ hsort
  | illegal => simpa [eq_comm] using hillegal

end Lexeme
end CircuitText
