import CircuitText.Proofs.Lexing.Lexemes

/-!
# Layout makes no difference

The lexemes of a text can be laid out anew, with other blanks and comments between them, and the
tokens stay the same.  A lexeme is read again although something else follows it, because what
follows begins with a blank or a comment, and nothing that could have been read before can be read
now.  The delicate one is a string, or a quote that begins none: where a string ends depends on all
the quotes behind it.  A layout puts no quote into its gaps, so a quote behind a lexeme stands in a
later lexeme and stood behind it before.

* `IsFiller` --- what may be put between lexemes;
* `Parted` --- texts that begin with a blank or a comment;
* `Pattern.split?_append`, `Pattern.split?_append_eq_none` --- what is split off in front of them;
* `Lexeme.read_append` --- a lexeme is read again;
* `words_laidOut` --- so are all the lexemes of a text.
-/

namespace CircuitText

/-! ## What may be put between lexemes -/

/-- Blanks and comments.  A comment has no quote in it and comes with the line feed that ends it. -/
inductive IsFiller : List Char → Prop
  | nil : IsFiller []
  | blank {c : Char} {gap : List Char} (hblank : Text.isBlank c = true) (more : IsFiller gap) :
      IsFiller (c :: gap)
  | comment {comment gap : List Char} (hcomment : '\n' ∉ comment)
      (hquotes : ∀ quote, quote = '"' ∨ quote = '\'' → quote ∉ comment) (more : IsFiller gap) :
      IsFiller ('#' :: (comment ++ '\n' :: gap))

/-- Nothing but a blank or a comment can stand first. -/
def Parted (rest : List Char) : Prop := ∀ c ∈ rest.head?, Text.isBlank c = true ∨ c = '#'

section Filler

variable {gap rest : List Char}

theorem IsFiller.isGap (h : IsFiller gap) (rest : List Char) : IsGap gap rest := by
  induction h with
  | nil => exact .nil
  | blank hblank more ih => exact .blank hblank ih
  | comment hcomment hquotes more ih =>
    exact .comment hcomment (by simp [EndsLine]) (.blank Text.isBlank_lineFeed ih)

theorem isBlank_quote {quote : Char} (h : quote = '"' ∨ quote = '\'') :
    Text.isBlank quote = false ∧ quote ≠ '#' := by
  rcases h with rfl | rfl <;> decide

theorem IsFiller.quote_notMem (h : IsFiller gap) {quote : Char}
    (hquote : quote = '"' ∨ quote = '\'') : quote ∉ gap := by
  obtain ⟨hblank, hhash⟩ := isBlank_quote hquote
  induction h with
  | nil => simp
  | blank hc more ih =>
    refine List.not_mem_cons_of_ne_of_not_mem ?_ ih
    rintro rfl
    simp [hc] at hblank
  | comment hcomment hquotes more ih =>
    have hfeed : quote ≠ '\n' := by rcases hquote with rfl | rfl <;> decide
    simp [hhash, hquotes quote hquote, hfeed, ih]

/-- What begins with blanks and comments has a blank or a comment first. -/
theorem IsFiller.parted_append (h : IsFiller gap) (hrest : gap = [] → Parted rest) :
    Parted (gap ++ rest) := by
  cases h with
  | nil => exact hrest rfl
  | blank hblank more => simp [Parted, hblank]
  | comment hcomment hquotes more => simp [Parted]

theorem continuesWord_eq_false {c : Char} (h : Text.isBlank c = true ∨ c = '#') :
    continuesWord c = false := by
  have hmarks : ∀ d ∈ ['!', '?'], Text.isBlank d = false ∧ d ≠ '#' := by
    simp only [List.forall_mem_cons]
    exact ⟨by decide, by decide, by simp⟩
  rw [← Bool.not_eq_true]
  intro hc
  have hnone : Text.isBlank c = false ∧ c ≠ '#' := by
    simp only [continuesWord, Bool.or_eq_true, beq_iff_eq] at hc
    rcases hc with ((hc | hc) | rfl) | rfl
    · refine ⟨isBlank_of_startsWord hc, ?_⟩
      rintro rfl
      exact absurd (le_toNat_of_startsWord hc) (by decide)
    · exact Lexeme.isBlank_of_isDigit hc
    · exact hmarks _ (by simp)
    · exact hmarks _ (by simp)
  simp [hnone] at h

theorem Parted.stops_continuesWord (h : Parted rest) : Text.Stops continuesWord rest :=
  fun c hc => continuesWord_eq_false (h c hc)

theorem Parted.stops_isDigit (h : Parted rest) : Text.Stops Char.isDigit rest := by
  intro c hc
  have hword := h.stops_continuesWord c hc
  simp only [continuesWord, Bool.or_eq_false_iff] at hword
  exact hword.1.1.2

theorem Parted.head?_ne (h : Parted rest) {c : Char} (hblank : Text.isBlank c = false)
    (hhash : c ≠ '#') : rest.head? ≠ some c := by
  intro hc
  rcases h c hc with hb | rfl
  · simp [hblank] at hb
  · exact hhash rfl

end Filler

/-! ## Splitting a lexeme off again -/

namespace Pattern

variable {c : Char} {text rest rest' : List Char}

/-- Only a quote can close a string, and any quote can. -/
theorem splitString?_eq_none_iff {quote : Char} {afterBackslash : Bool} {cs : List Char} :
    splitString? quote afterBackslash cs = none ↔ quote ∉ cs := by
  induction cs generalizing afterBackslash with
  | nil => simp [splitString?]
  | cons c cs ih =>
    unfold splitString?
    by_cases hc : c = quote
    · rw [if_pos hc]
      split
      · split <;> simp [hc]
      · simp [hc]
    · rw [if_neg hc]
      split
      · rename_i h
        have hmem : quote ∈ cs := by
          refine Decidable.not_not.mp fun hmem => ?_
          rw [ih.mpr hmem] at h
          simp at h
        simp [hmem]
      · rename_i h
        simpa [Ne.symm hc] using ih.mp h

/-- A string ends where it ended if there are no more quotes behind it than there were. -/
theorem splitString?_append {quote : Char} {afterBackslash : Bool}
    (h : splitString? quote afterBackslash (text ++ rest) = some (text, rest))
    (hquote : quote ∈ rest' → quote ∈ rest) :
    splitString? quote afterBackslash (text ++ rest') = some (text, rest') := by
  induction text generalizing afterBackslash with
  | nil =>
    obtain ⟨body, hbody⟩ := Lexeme.exists_body_of_splitString? h
    simp at hbody
  | cons c text ih =>
    rw [List.cons_append] at h ⊢
    unfold splitString? at h ⊢
    by_cases hc : c = quote
    · -- A quote behind a backslash closes the string only if no later quote does.
      rw [if_pos hc] at h ⊢
      cases afterBackslash with
      | false =>
        simp only [Bool.false_eq_true, if_false, Option.some.injEq, Prod.mk.injEq,
          List.cons.injEq, true_and] at h ⊢
        simp [← h.1]
      | true =>
        simp only [if_true] at h ⊢
        split at h
        · rename_i body rest'' hmore
          simp only [Option.some.injEq, Prod.mk.injEq, List.cons.injEq, true_and] at h
          obtain ⟨rfl, rfl⟩ := h
          rw [ih hmore]
        · rename_i hnone
          simp only [Option.some.injEq, Prod.mk.injEq, List.cons.injEq, true_and] at h
          obtain ⟨rfl, -⟩ := h
          rw [splitString?_eq_none_iff] at hnone
          have hnone' : splitString? quote false rest' = none :=
            splitString?_eq_none_iff.mpr fun hmem => hnone (hquote hmem)
          rw [List.nil_append, hnone']
    · rw [if_neg hc] at h ⊢
      split at h
      · rename_i body rest'' hmore
        simp only [Option.some.injEq, Prod.mk.injEq, List.cons.injEq, true_and] at h
        obtain ⟨rfl, rfl⟩ := h
        rw [ih hmore]
      · simp at h

/-- A sign is split off in front of digits. -/
theorem splitSign_append_digits {sign whole : List Char}
    (hsign : sign = [] ∨ sign = ['-'] ∨ sign = ['+']) (hne : whole ≠ [])
    (hwhole : ∀ c ∈ whole, c.isDigit = true) (rest : List Char) :
    splitSign (sign ++ (whole ++ rest)) = (sign, whole ++ rest) := by
  obtain ⟨d, ds, rfl⟩ := List.exists_cons_of_ne_nil hne
  have hd := hwhole d (List.mem_cons_self ..)
  rcases hsign with rfl | rfl | rfl
  · have hnone : ¬(d = '-' ∨ d = '+') := by
      rintro (rfl | rfl) <;> exact absurd hd (by decide)
    simp [splitSign, hnone]
  · simp [splitSign]
  · simp [splitSign]

/-- A number is split off again in front of a blank or a comment. -/
theorem splitNumber?_append (h : splitNumber? (text ++ rest) = some (text, rest))
    (hparted : Parted rest') : splitNumber? (text ++ rest') = some (text, rest') := by
  obtain ⟨sign, whole, fraction, hsign, hne, hwhole, hfraction, rfl⟩ :=
    (Lexeme.spells_number h).exists_parts
  have hpoint : rest'.head? ≠ some '.' := hparted.head?_ne (by decide) (by decide)
  have hsplit : splitSign (sign ++ (whole ++ fraction) ++ rest') =
      (sign, whole ++ (fraction ++ rest')) := by
    rw [List.append_assoc, List.append_assoc]
    exact splitSign_append_digits hsign hne hwhole _
  have hfront : Text.Stops Char.isDigit (fraction ++ rest') ∧
      splitFraction (fraction ++ rest') = (fraction, rest') := by
    rcases hfraction with rfl | ⟨digits, rfl, hdigits, hall⟩
    · refine ⟨hparted.stops_isDigit, ?_⟩
      cases rest' with
      | nil => rfl
      | cons d rest' =>
        have hd : d ≠ '.' := fun heq => hpoint (congrArg some heq)
        simp [splitFraction, hd]
    · refine ⟨Text.stops_cons.mpr (by decide), ?_⟩
      have htake := Text.takeWhile_run hall hparted.stops_isDigit
      have hdrop := Text.dropWhile_run hall hparted.stops_isDigit
      simp [splitFraction, htake, hdrop, hdigits]
  simp only [splitNumber?, hsplit, Text.takeWhile_run hwhole hfront.1,
    Text.dropWhile_run hwhole hfront.1, hfront.2, if_neg hne]

/-- A lexeme of any sort is split off again in front of a blank or a comment. -/
theorem split?_append {sort : LexemeSort} (hsort : sort ∈ lexemes)
    (h : sort.pattern.split? (c :: (text ++ rest)) = some (c :: text, rest))
    (hparted : Parted rest')
    (hquote : ∀ quote, quote = '"' ∨ quote = '\'' → quote ∈ rest' → quote ∈ rest) :
    sort.pattern.split? (c :: (text ++ rest')) = some (c :: text, rest') := by
  obtain ⟨pattern, k⟩ := sort
  cases pattern with
  | number =>
    rw [← List.cons_append] at h ⊢
    exact splitNumber?_append h hparted
  | string quote =>
    have hq : quote = '"' ∨ quote = '\'' := (Lexeme.quote_of_mem_lexemes hsort).1
    simp only [split?] at h ⊢
    split at h
    · rename_i hc
      obtain ⟨⟨body, more⟩, hfound, heq⟩ := Option.map_eq_some_iff.mp h
      simp only [Prod.mk.injEq, List.cons.injEq, true_and] at heq
      obtain ⟨rfl, rfl⟩ := heq
      rw [if_pos hc, splitString?_append hfound (hquote quote hq)]
      rfl
    · simp at h
  | word =>
    simp only [split?] at h ⊢
    split at h
    · rename_i hc
      simp only [Option.some.injEq, Prod.mk.injEq, List.cons.injEq, true_and] at h
      have hrun : ∀ d ∈ text, continuesWord d = true := by
        intro d hd
        rw [← h.1] at hd
        exact Text.of_mem_takeWhile hd
      rw [if_pos hc, Text.takeWhile_run hrun hparted.stops_continuesWord,
        Text.dropWhile_run hrun hparted.stops_continuesWord]
    · simp at h
  | symbol first more =>
    simp only [split?] at h ⊢
    split at h
    · rename_i hc
      simp only [Option.some.injEq, Prod.mk.injEq, List.cons.injEq] at h
      obtain ⟨⟨rfl, rfl⟩, -⟩ := h
      simp
    · simp at h

/-- A run that was empty stays empty in front of what stops it. -/
theorem takeWhile_append_eq_nil {p : Char → Bool} (h : (text ++ rest).takeWhile p = [])
    (hstops : Text.Stops p rest') : (text ++ rest').takeWhile p = [] := by
  cases text with
  | nil => simpa using Text.takeWhile_run (List.forall_mem_nil (p · = true)) hstops
  | cons d text =>
    have hd : p d = false := by
      rw [← Bool.not_eq_true]
      intro hd
      simp [hd] at h
    simp [hd]

theorem splitNumber?_eq_none_iff {cs : List Char} :
    splitNumber? cs = none ↔ (splitSign cs).2.takeWhile Char.isDigit = [] := by
  simp [splitNumber?]

/-- A symbol that reaches into what follows would have a blank or a hash in it. -/
theorem prefix_of_prefix_append {more : List Char}
    (hmore : ∀ d ∈ more, Text.isBlank d = false ∧ d ≠ '#') (hparted : Parted rest')
    (h : more <+: text ++ rest') : more <+: text := by
  rcases List.prefix_or_prefix_of_prefix h (List.prefix_append text rest') with hle | ⟨tail, rfl⟩
  · exact hle
  · rw [List.prefix_append_right_inj] at h
    cases tail with
    | nil => simp
    | cons d tail =>
      obtain ⟨more', rfl⟩ := h
      obtain ⟨hblank, hhash⟩ := hmore d (by simp)
      exact absurd rfl (hparted.head?_ne hblank hhash)

/-- No sort of lexeme fits that did not fit before. -/
theorem split?_append_eq_none {sort : LexemeSort} (hsort : sort ∈ lexemes)
    (h : sort.pattern.split? (c :: (text ++ rest)) = none) (hparted : Parted rest')
    (hquote : ∀ quote, quote = '"' ∨ quote = '\'' → quote ∈ rest' → quote ∈ rest) :
    sort.pattern.split? (c :: (text ++ rest')) = none := by
  obtain ⟨pattern, k⟩ := sort
  cases pattern with
  | number =>
    simp only [split?, splitNumber?_eq_none_iff, splitSign] at h ⊢
    split at h
    · rename_i hsign
      rw [if_pos hsign]
      exact takeWhile_append_eq_nil h hparted.stops_isDigit
    · rename_i hsign
      rw [if_neg hsign]
      rw [← List.cons_append] at h ⊢
      exact takeWhile_append_eq_nil h hparted.stops_isDigit
  | string quote =>
    have hq : quote = '"' ∨ quote = '\'' := (Lexeme.quote_of_mem_lexemes hsort).1
    simp only [split?] at h ⊢
    split
    · rename_i hc
      rw [if_pos hc, Option.map_eq_none_iff, splitString?_eq_none_iff, List.mem_append] at h
      rw [Option.map_eq_none_iff, splitString?_eq_none_iff, List.mem_append]
      exact fun hmem => h (hmem.imp_right (hquote quote hq))
    · rfl
  | word =>
    simp only [split?] at h ⊢
    split at h
    · simp at h
    · rename_i hc
      rw [if_neg hc]
  | symbol first more =>
    simp only [split?] at h ⊢
    split at h
    · simp at h
    · rename_i hc
      rw [if_neg]
      rintro ⟨rfl, hlead⟩
      refine hc ⟨rfl, ?_⟩
      rw [List.isPrefixOf_iff_prefix] at hlead ⊢
      have hmore : ∀ d ∈ more, Text.isBlank d = false ∧ d ≠ '#' := fun d hd =>
        Lexeme.isBlank_of_mem_characters hsort d (List.mem_cons_of_mem _ hd)
      have hle := prefix_of_prefix_append hmore hparted hlead
      exact hle.trans (List.prefix_append ..)

end Pattern

/-! ## Reading a lexeme again -/

namespace Lexeme

/-- A lexeme is read again in front of a blank or a comment, if there are no more quotes behind it
than there were. -/
theorem read_append {c : Char} {cs rest' : List Char} (hparted : Parted rest')
    (hquote : ∀ quote, quote = '"' ∨ quote = '\'' → quote ∈ rest' → quote ∈ (read c cs).rest) :
    ∃ tail, (read c cs).text = c :: tail ∧
      read c (tail ++ rest') = { read c cs with rest := rest' } := by
  have hsplit := append_readBy lexemes c cs
  have hne := text_readBy_ne_nil lexemes c cs
  rw [← read] at hsplit hne
  obtain ⟨d, tail, htext⟩ := List.exists_cons_of_ne_nil hne
  rw [htext, List.cons_append, List.cons.injEq] at hsplit
  obtain ⟨rfl, hcs⟩ := hsplit
  refine ⟨tail, htext, ?_⟩
  -- The sorts of lexeme are tried in order, so those before the one that fits must fail again.
  have hnone : ∀ sort ∈ lexemes, ofSort? (d :: cs) sort = none →
      ofSort? (d :: (tail ++ rest')) sort = none := by
    intro sort hsort h
    rw [ofSort?, Option.map_eq_none_iff, ← hcs] at h
    rw [ofSort?, Option.map_eq_none_iff]
    exact Pattern.split?_append_eq_none hsort h hparted hquote
  cases hfound : lexemes.findSome? (ofSort? (d :: cs)) with
  | none =>
    have hread : read d cs = illegal d cs := by rw [read, readBy, hfound, Option.getD_none]
    have htail : tail = [] := by
      rw [hread] at htext
      exact (List.cons.inj htext).2.symm
    have hfound' : lexemes.findSome? (ofSort? (d :: (tail ++ rest'))) = none := by
      rw [List.findSome?_eq_none_iff] at hfound ⊢
      exact fun sort hsort => hnone sort hsort (hfound sort hsort)
    rw [hread, read, readBy, hfound', Option.getD_none, htail]
    rfl
  | some x =>
    have hread : read d cs = x := by rw [read, readBy, hfound, Option.getD_some]
    rw [hread] at htext hcs hquote ⊢
    obtain ⟨before, sort, after, hsorts, hsort, hbefore⟩ := List.findSome?_eq_some_iff.mp hfound
    have hmem : sort ∈ lexemes := by simp [hsorts]
    obtain ⟨⟨text, rest⟩, hsplit, rfl⟩ := Option.map_eq_some_iff.mp hsort
    obtain rfl : text = d :: tail := htext
    rw [← hcs] at hsplit
    have hagain := Pattern.split?_append hmem hsplit hparted hquote
    have hfound' : lexemes.findSome? (ofSort? (d :: (tail ++ rest'))) =
        some ⟨sort.kindOf (d :: tail), sort.pattern.literal (d :: tail), d :: tail, rest'⟩ := by
      refine List.findSome?_eq_some_iff.mpr ⟨before, sort, after, hsorts, ?_, fun s hs => ?_⟩
      · rw [ofSort?, hagain]
        rfl
      · exact hnone s (by simp [hsorts, hs]) (hbefore s hs)
    rw [read, readBy, hfound', Option.getD_some]

end Lexeme

/-! ## Laying a text out anew -/

/-- Lexemes laid out with gaps, one gap in front and one behind each lexeme. -/
def laidOut : (gap : List Char) → List (List Char × List Char) → List Char
  | gap, [] => gap
  | gap, (lexeme, next) :: more => gap ++ (lexeme ++ laidOut next more)

/-- The characters of a layout are those of its lexemes and gaps. -/
theorem mem_laidOut {c : Char} {gap : List Char} {parts : List (List Char × List Char)}
    (h : c ∈ laidOut gap parts) :
    c ∈ gap ∨ ∃ part ∈ parts, c ∈ part.1 ∨ c ∈ part.2 := by
  induction parts generalizing gap with
  | nil => exact .inl h
  | cons part parts ih =>
    rw [laidOut, List.mem_append, List.mem_append] at h
    rcases h with h | h | h
    · exact .inl h
    · exact .inr ⟨part, List.mem_cons_self .., .inl h⟩
    · rcases ih h with h | ⟨later, hlater, h⟩
      · exact .inr ⟨part, List.mem_cons_self .., .inr h⟩
      · exact .inr ⟨later, List.mem_cons_of_mem _ hlater, h⟩

/-- A layout begins with a blank or a comment if it begins with a gap, or if it is nothing but
one. -/
theorem parted_laidOut {gap : List Char} {parts : List (List Char × List Char)}
    (hfiller : IsFiller gap) (hne : parts = [] ∨ gap ≠ []) :
    Parted (laidOut gap parts ++ ['\n']) := by
  have hfeed : Parted ['\n'] := by simp [Parted, Text.isBlank_lineFeed]
  cases parts with
  | nil => exact hfiller.parted_append fun _ => hfeed
  | cons part parts =>
    rw [laidOut, List.append_assoc]
    exact hfiller.parted_append fun h => absurd h (by simpa using hne)

/-- The lexemes of a text are parts of it. -/
theorem mem_of_mem_lexemesOf {c : Char} (cs : List Char) :
    ∀ x ∈ lexemesOf cs, c ∈ x.text → c ∈ cs := by
  fun_induction lexemesOf cs with
  | case1 cs hgap => simp
  | case2 cs d rest hgap _ ih =>
    have hread := Lexeme.append_readBy lexemes d rest
    have hcs := append_splitGap false cs
    rw [hgap, ← hread] at hcs
    intro x hx hc
    rw [← hcs, List.mem_append, List.mem_append]
    rcases List.mem_cons.mp hx with rfl | hx
    · exact .inr (.inl hc)
    · exact .inr (.inr (ih x hx hc))

/-- A quote in a layout stands in one of the lexemes. -/
theorem quote_mem_of_mem_laidOut {cs gap : List Char} {gaps : List (List Char)} {quote : Char}
    (hquote : quote = '"' ∨ quote = '\'') (hgap : IsFiller gap) (hgaps : ∀ g ∈ gaps, IsFiller g)
    (h : quote ∈ laidOut gap (((lexemesOf cs).map (·.text)).zip gaps) ++ ['\n']) :
    quote ∈ cs := by
  have hfeed : quote ≠ '\n' := by rcases hquote with rfl | rfl <;> decide
  rw [List.mem_append, List.mem_singleton, or_iff_left hfeed] at h
  rcases mem_laidOut h with h | ⟨⟨lexeme, g⟩, hpart, h⟩
  · exact absurd h (hgap.quote_notMem hquote)
  · obtain ⟨hlexeme, hg⟩ := List.of_mem_zip hpart
    obtain ⟨x, hx, rfl⟩ := List.mem_map.mp hlexeme
    rcases h with h | h
    · exact mem_of_mem_lexemesOf cs x hx h
    · exact absurd h ((hgaps g hg).quote_notMem hquote)

/-- The words of lexemes that are laid out anew are the words that the lexemes say. -/
theorem lexemesOf_laidOut (cs : List Char) : ∀ {gap : List Char} {gaps : List (List Char)},
    gaps.length = (lexemesOf cs).length → IsFiller gap → (∀ g ∈ gaps, IsFiller g) →
      (∀ g ∈ gaps.dropLast, g ≠ []) →
      (lexemesOf (laidOut gap (((lexemesOf cs).map (·.text)).zip gaps) ++ ['\n'])).map (·.word) =
        (lexemesOf cs).map (·.word) := by
  fun_induction lexemesOf cs with
  | case1 cs hgap =>
    intro gap gaps _ hfiller _ _
    have hnone : (splitGap false (gap ++ ['\n'])).2 = [] := by
      rw [splitGap_append_of_isGap (hfiller.isGap _)]
      rfl
    rw [List.map_nil, List.zip_nil_left, laidOut, lexemesOf_of_gap hnone]
  | case2 cs c rest hgap _ ih =>
    intro gap gaps hlength hfiller hgaps hne
    obtain ⟨next, gaps, rfl⟩ := List.exists_cons_of_length_eq_add_one hlength
    have hlength : gaps.length = (lexemesOf (Lexeme.read c rest).rest).length := by
      simpa using hlength
    obtain ⟨hnext, hgaps⟩ := List.forall_mem_cons.mp hgaps
    have hinner : (gaps = [] ∨ next ≠ []) ∧ ∀ g ∈ gaps.dropLast, g ≠ [] := by
      cases gaps with
      | nil => simp
      | cons g gaps => exact (List.forall_mem_cons.mp hne).imp_left .inr
    have hagain := ih hlength hnext hgaps hinner.2
    -- Gaps have no quotes, so no string finds a later quote to close it than it did before.
    have hquote : ∀ quote, quote = '"' ∨ quote = '\'' → quote ∈ laidOut next
        (((lexemesOf (Lexeme.read c rest).rest).map (·.text)).zip gaps) ++ ['\n'] →
          quote ∈ (Lexeme.read c rest).rest :=
      fun quote hq => quote_mem_of_mem_laidOut hq hnext hgaps
    generalize hparts :
      ((lexemesOf (Lexeme.read c rest).rest).map (·.text)).zip gaps = parts at hagain hquote
    have hparted : Parted (laidOut next parts ++ ['\n']) := by
      refine parted_laidOut hnext (hinner.1.imp_left fun h => ?_)
      rw [← hparts, h, List.zip_nil_right]
    obtain ⟨tail, htext, hread⟩ := Lexeme.read_append hparted hquote
    have hfront : (splitGap false (gap ++ ((Lexeme.read c rest).text ++ laidOut next parts) ++
        ['\n'])).2 = c :: (tail ++ (laidOut next parts ++ ['\n'])) := by
      obtain ⟨hblank, hhash⟩ := head_splitGap false cs c (by rw [hgap]; rfl)
      rw [List.append_assoc, splitGap_append_of_isGap (hfiller.isGap _), htext,
        List.append_assoc, List.cons_append, splitGap_of_word hblank hhash]
    rw [List.map_cons, List.zip_cons_cons, laidOut, hparts, lexemesOf_of_lexeme hfront, hread,
      List.map_cons, List.map_cons, hagain]
    rfl

namespace Lexer

/-- A text keeps its words when its lexemes, which the spans of its tokens cover, are laid out with
other gaps, if there is something between any two of them. -/
theorem words_laidOut {text gap : List Char} {gaps : List (List Char)} {file : String}
    (hlength : gaps.length = (tokenize text file).length) (hgap : IsFiller gap)
    (hgaps : ∀ g ∈ gaps, IsFiller g) (hne : ∀ g ∈ gaps.dropLast, g ≠ []) (other : String) :
    words (laidOut gap (((tokenize text file).map (·.span.cut text)).zip gaps)) other =
      words text file := by
  have hcount := congrArg List.length (map_cut_tokenize text file)
  rw [List.length_map, List.length_map] at hcount
  rw [words_eq, words_eq, map_cut_tokenize]
  exact lexemesOf_laidOut _ (hlength.trans hcount) hgap hgaps hne

/-- A number, a string over two lines, a string that only a quote behind a backslash closes, a
character that begins nothing and a quote that begins no string, laid out with other blanks and with
comments. -/
theorem words_laidOut_quotes :
    let text := "x-2->'a\nb' # '\n,\"c\\\" ?'".toList
    let gap := "#\n".toList
    let gaps := ["\t", " # c\n", "\n", " ", "#\n", "\u00a0", "\r\n", ""].map String.toList
    gaps.length = (tokenize text "here").length ∧ IsFiller gap ∧ (∀ g ∈ gaps, IsFiller g) ∧
      (∀ g ∈ gaps.dropLast, g ≠ []) ∧
      laidOut gap (((tokenize text "here").map (·.span.cut text)).zip gaps) =
        "#\nx\t-2 # c\n->\n'a\nb' ,#\n\"c\\\"\u00a0?\r\n'".toList ∧
      words "#\nx\t-2 # c\n->\n'a\nb' ,#\n\"c\\\"\u00a0?\r\n'".toList "there" =
        words text "here" := by
  intro text gap gaps
  have hlength : gaps.length = (tokenize text "here").length := by decide +kernel
  have hblank : ∀ {c}, Text.isBlank c = true → IsFiller [c] := fun h => .blank h .nil
  have hgap : IsFiller gap := @IsFiller.comment [] [] (by simp) (by simp) .nil
  have hcomment : IsFiller " # c\n".toList :=
    .blank (by decide) (@IsFiller.comment [' ', 'c'] [] (by decide)
      (by rintro _ (rfl | rfl) <;> decide) .nil)
  have hgaps : ∀ g ∈ gaps, IsFiller g := by
    simp only [gaps, List.map_cons, List.map_nil, List.forall_mem_cons]
    exact ⟨hblank (by decide), hcomment, hblank (by decide), hblank (by decide), hgap,
      hblank (by decide), .blank (by decide) (hblank (by decide)), .nil, by simp⟩
  have hne : ∀ g ∈ gaps.dropLast, g ≠ [] := by decide
  have htext : laidOut gap (((tokenize text "here").map (·.span.cut text)).zip gaps) =
      "#\nx\t-2 # c\n->\n'a\nb' ,#\n\"c\\\"\u00a0?\r\n'".toList := by decide +kernel
  exact ⟨hlength, hgap, hgaps, hne, htext, htext ▸ words_laidOut hlength hgap hgaps hne "there"⟩

end Lexer
end CircuitText
