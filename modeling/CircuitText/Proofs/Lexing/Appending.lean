import CircuitText.Proofs.Lexing.Closing

/-!
# Text behind a line

When text is put behind a text that ends with a line feed, the lexemes before the line feed stay
what they were: a comment ends there, and so does every lexeme but a string.  A string may be
changed by a later quote, and only in two ways: a quote that began no string may begin one now, and
a string that is closed by a quote behind a backslash may be closed by a later quote.  A word that
neither can happen to is *settled*.  So if the words of the first text are settled, or if there are
no quotes in the second text, the tokens are those of the two texts, one after the other.

The places of the tokens go on from where the first text ends.  `Lexer.tokensFrom p cs` are the
tokens of a text `cs` that begins at the place `p`, and the induction is along the lexemes of the
first text, with `p` moving on.

* `Word.IsSettled` --- words that no later quote changes;
* `Lexeme.read_append_line` --- a lexeme before a line feed;
* `Lexer.tokensFrom`, `Lexer.tokensFrom_of_lexeme` --- tokens from a place on, lexeme by lexeme;
* `Lexer.tokensFrom_append` --- the tokens of two texts;
* `Lexer.words_append_line` --- their words.
-/

namespace CircuitText

/-! ## Settled words -/

/-- No later quote changes the word: it is no quote that begins no string, and no string that only a
quote behind a backslash closes. -/
structure Word.IsSettled (w : Word) : Prop where
  illegal : w.kind = .illegal → w.literal ≠ "\"" ∧ w.literal ≠ "'"
  string : w.kind = .string → w.literal.toList.getLast? ≠ some '\\'

namespace Text

/-- A text in which there is a quote of either sort. -/
def HasQuote (text : List Char) : Prop := ∃ quote ∈ text, quote = '"' ∨ quote = '\''

/-- A backslash at the end of a body is kept. -/
theorem getLast?_unescape {body : List Char} (h : body.getLast? = some '\\') :
    (unescape body).getLast? = some '\\' := by
  induction body using unescape.induct with
  | case1 => simp at h
  | case2 => rfl
  | case3 d rest ih =>
    rw [unescape_pair]
    cases rest with
    | nil =>
      obtain rfl : d = '\\' := by simpa using h
      rfl
    | cons c rest =>
      rw [List.getLast?_append, ih (by simpa using h)]
      rfl
  | case4 c rest hc ih =>
    rw [unescape_cons hc]
    cases rest with
    | nil => exact absurd (by simpa using h) hc
    | cons d rest =>
      rw [List.getLast?_cons, ih (by simpa using h)]
      rfl

end Text

namespace Pattern

variable {quote prev c : Char} {cs body rest more : List Char}

/-! ## Strings -/

theorem Masked.append (h : Masked quote prev cs) (hmore : quote ∉ more) :
    Masked quote prev (cs ++ more) := by
  induction cs generalizing prev with
  | nil => exact masked_of_notMem hmore
  | cons c cs ih =>
    obtain ⟨hc, hcs⟩ := masked_cons.mp h
    exact masked_cons.mpr ⟨hc, ih hcs⟩

/-- A quote that closes a string goes on to do so, unless it stands behind a backslash and there is
a quote in the text that is put behind. -/
theorem Closes.append (h : Closes quote prev body rest)
    (hmore : quote ∈ more → (prev :: body).getLast? ≠ some '\\') :
    Closes quote prev body (rest ++ more) := by
  rcases h with ⟨hbody, hlast⟩ | ⟨hall, hrest⟩
  · exact .bare hbody hlast
  · have hnone : quote ∉ more := fun hmem => hmore hmem (hall body rest rfl)
    have hmasked := hall.append hnone
    rw [List.append_assoc, List.cons_append] at hmasked
    exact .masked hmasked (by simp [hrest, hnone])

/-! ## Numbers, words and symbols -/

theorem splitSign_append (hfeed : '\n' ∈ cs) (more : List Char) :
    splitSign (cs ++ more) = ((splitSign cs).1, (splitSign cs).2 ++ more) ∧
      '\n' ∈ (splitSign cs).2 := by
  cases cs with
  | nil => simp at hfeed
  | cons c cs =>
    simp only [splitSign, List.cons_append]
    split
    · rename_i hsign
      have hne : '\n' ≠ c := by rcases hsign with rfl | rfl <;> decide
      exact ⟨rfl, List.mem_of_ne_of_mem hne hfeed⟩
    · exact ⟨rfl, hfeed⟩

theorem splitFraction_append (hfeed : '\n' ∈ cs) :
    splitFraction (cs ++ more) = ((splitFraction cs).1, (splitFraction cs).2 ++ more) := by
  cases cs with
  | nil => simp at hfeed
  | cons c cs =>
    simp only [splitFraction, List.cons_append]
    by_cases hc : c = '.'
    · have hne : '\n' ≠ c := by
        rw [hc]
        decide
      obtain ⟨htake, hdrop, -⟩ := Text.run_append (p := Char.isDigit)
        (List.mem_of_ne_of_mem hne hfeed) (by decide) more
      rw [htake, hdrop]
      split <;> rfl
    · simp [hc]

theorem splitNumber?_append_line (hfeed : '\n' ∈ cs) :
    splitNumber? (cs ++ more) =
      (splitNumber? cs).map fun found => (found.1, found.2 ++ more) := by
  obtain ⟨hsign, hfeed⟩ := splitSign_append hfeed more
  obtain ⟨htake, hdrop, hfeed⟩ := Text.run_append (p := Char.isDigit) hfeed (by decide) more
  simp only [splitNumber?, hsign, htake, hdrop, splitFraction_append hfeed]
  split <;> rfl

/-- Only the pattern of strings looks beyond a line feed. -/
theorem split?_append_line {sort : LexemeSort} (hsort : sort ∈ lexemes) (hfeed : '\n' ∈ cs)
    (hquote : c ≠ '"' ∧ c ≠ '\'') :
    sort.pattern.split? (c :: (cs ++ more)) =
      (sort.pattern.split? (c :: cs)).map fun found => (found.1, found.2 ++ more) := by
  obtain ⟨pattern, k⟩ := sort
  cases pattern with
  | number => exact splitNumber?_append_line (List.mem_cons_of_mem c hfeed)
  | string quote =>
    have hne : c ≠ quote := by
      rcases (Lexeme.quote_of_mem_lexemes hsort).1 with rfl | rfl <;> simp [hquote]
    simp [split?, hne]
  | word =>
    obtain ⟨htake, hdrop, -⟩ := Text.run_append hfeed continuesWord_lineFeed more
    simp only [split?, htake, hdrop]
    split <;> rfl
  | symbol first tail =>
    -- no symbol has a line feed in it, so none reaches beyond one
    have hprefix : tail <+: cs ++ more ↔ tail <+: cs := by
      obtain ⟨front, back, rfl⟩ := List.append_of_mem hfeed
      refine ⟨fun h => ?_, fun h => h.trans (List.prefix_append ..)⟩
      have htail : ∀ d ∈ tail, Text.isBlank d = false ∧ d ≠ '#' := fun d hd =>
        Lexeme.isBlank_of_mem_characters hsort d (List.mem_cons_of_mem _ hd)
      rw [List.append_assoc] at h
      have hparted : Parted ('\n' :: back ++ more) := by simp [Parted, Text.isBlank_lineFeed]
      exact (prefix_of_prefix_append htail hparted h).trans (List.prefix_append ..)
    simp only [split?, List.isPrefixOf_iff_prefix, hprefix]
    split
    · rename_i hfits
      rw [List.drop_append_of_le_length hfits.2.length_le]
      rfl
    · rfl

end Pattern

/-! ## Lexemes -/

namespace Lexeme

variable {c quote : Char} {cs more : List Char}

/-- The lexeme with more text behind what follows it. -/
def append (x : Lexeme) (more : List Char) : Lexeme := { x with rest := x.rest ++ more }

theorem read_append_of_ne_quote (hfeed : '\n' ∈ cs) (hquote : c ≠ '"' ∧ c ≠ '\'') :
    read c (cs ++ more) = (read c cs).append more := by
  have hsort : ∀ sort ∈ lexemes,
      ofSort? (c :: (cs ++ more)) sort = (ofSort? (c :: cs) sort).map (·.append more) := by
    intro sort hsort
    rw [ofSort?, ofSort?, Pattern.split?_append_line hsort hfeed hquote, Option.map_map,
      Option.map_map]
    rfl
  have hfound : ∀ sorts ⊆ lexemes, sorts.findSome? (ofSort? (c :: (cs ++ more))) =
      (sorts.findSome? (ofSort? (c :: cs))).map (·.append more) := by
    intro sorts hsorts
    induction sorts with
    | nil => rfl
    | cons sort sorts ih =>
      obtain ⟨hmem, hsorts⟩ := List.cons_subset.mp hsorts
      rw [List.findSome?_cons, List.findSome?_cons, hsort sort hmem, ih hsorts]
      cases ofSort? (c :: cs) sort <;> rfl
  rw [read, read, readBy, readBy, hfound _ (List.Subset.refl _)]
  exact Option.getD_map (·.append more) (illegal c cs) _

theorem read_append_of_quote (hquote : quote = '"' ∨ quote = '\'')
    (hsettled : quote ∈ more → (read quote cs).word.IsSettled) :
    read quote (cs ++ more) = (read quote cs).append more := by
  by_cases hmem : quote ∈ cs
  · obtain ⟨body, rest, rfl, hcloses⟩ :
        ∃ body rest, cs = body ++ quote :: rest ∧ Pattern.Closes quote quote body rest :=
      Pattern.exists_closes (ne_backslash hquote) hmem
    have hlast : quote ∈ more → (quote :: body).getLast? ≠ some '\\' := by
      intro hmore hbackslash
      have hword := (hsettled hmore).string
      rw [read_of_closes hquote hcloses] at hword
      refine hword rfl ?_
      rw [word, String.toList_ofList]
      exact Text.getLast?_unescape (Text.getLast?_of_cons hbackslash (ne_backslash hquote))
    rw [read_of_closes hquote hcloses, List.append_assoc, List.cons_append,
      read_of_closes hquote (hcloses.append hlast)]
    rfl
  · have hmore : quote ∉ more := by
      intro hmore
      have hword := (hsettled hmore).illegal
      rw [read_of_notMem hquote hmem] at hword
      obtain ⟨hdouble, hsingle⟩ := hword rfl
      rcases hquote with rfl | rfl
      · exact hdouble rfl
      · exact hsingle rfl
    rw [read_of_notMem hquote hmem, read_of_notMem hquote (by simp [hmem, hmore])]
    rfl

/-- A lexeme before a line feed stays what it is when more text is put behind the line feed, if it
is settled or there are no quotes in that text. -/
theorem read_append_line (hfeed : '\n' ∈ cs)
    (hsettled : Text.HasQuote more → (read c cs).word.IsSettled) :
    read c (cs ++ more) = (read c cs).append more := by
  by_cases hquote : c = '"' ∨ c = '\''
  · exact read_append_of_quote hquote fun hmem => hsettled ⟨c, hmem, hquote⟩
  · exact read_append_of_ne_quote hfeed (not_or.mp hquote)

/-- The line feed at the end of a text is read with no lexeme. -/
theorem getLast?_rest_read (hc : c ≠ '\n') (hcs : cs.getLast? = some '\n') :
    (read c cs).rest.getLast? = some '\n' := by
  have hlast : (c :: cs).getLast? = some '\n' := by rw [List.getLast?_cons, hcs]; rfl
  have hread : (read c cs).text ++ (read c cs).rest = c :: cs := append_readBy lexemes c cs
  have htoken : ((Lexer.mk [] (.start "") false).token c cs).IsReadFrom "" []
      (read c cs).text := Lexer.isReadFrom_token rfl hc
  cases hrest : (read c cs).rest with
  | nil =>
    rw [hrest, List.append_nil] at hread
    obtain ⟨front, hfront⟩ := List.getLast?_eq_some_iff.mp hlast
    exact absurd (hread.trans hfront) (htoken.lineFeed_ne_last front)
  | cons d rest =>
    rwa [← hread, hrest, List.getLast?_append, List.getLast?_cons, Option.some_or,
      ← List.getLast?_cons] at hlast

/-- The token of a lexeme that stands at a place. -/
def token (x : Lexeme) (p : Position) : Token :=
  ⟨x.kind, String.ofList x.literal, ⟨p, p.ofLast x.text⟩⟩

end Lexeme

/-! ## Tokens -/

namespace Lexer

variable {p : Position} {c : Char} {cs gap more : List Char}

/-- The tokens of a text that begins at a place. -/
def tokensFrom (p : Position) (cs : List Char) : List Token := (Lexer.mk cs p false).drain.1

/-- When there is only a gap there is no token. -/
theorem tokensFrom_of_gap (h : (splitGap false cs).2 = []) : tokensFrom p cs = [] :=
  drain_of_gap rfl h

/-- Lexers that find the same behind the gap give the same tokens. -/
theorem drain_congr {l l' : Lexer} (hended : l.ended = false) (h : l.skipGap = l'.skipGap) :
    l.drain.1 = l'.drain.1 := by
  have hended' : l'.ended = false := (congrArg ended h).symm.trans hended
  cases hrest : l.skipGap.rest with
  | nil => rw [drain_of_gap hended hrest, drain_of_gap hended' (h ▸ hrest)]
  | cons c cs => rw [drain_of_lexeme hended hrest, drain_of_lexeme hended' (h ▸ hrest), h]

/-- The tokens behind a gap. -/
theorem tokensFrom_of_isGap (h : IsGap gap cs) :
    tokensFrom p (gap ++ cs) = tokensFrom (p.after gap) cs :=
  drain_congr rfl (skipGap_append_of_isGap h p false)

/-- The token of a lexeme, and those behind it. -/
theorem tokensFrom_of_word (hblank : Text.isBlank c = false) (hhash : c ≠ '#') :
    tokensFrom p (c :: cs) = (Lexeme.read c cs).token p ::
      tokensFrom (p.after (Lexeme.read c cs).text) (Lexeme.read c cs).rest := by
  have hgap : splitGap false (c :: cs) = ([], c :: cs) := splitGap_of_word hblank hhash
  have hskip : (Lexer.mk (c :: cs) p false).skipGap = ⟨c :: cs, p, false⟩ := by
    simp [skipGap, pass, hgap]
  have hbehind : (Lexer.mk (c :: cs) p false).behind c cs =
      ⟨(splitTrailing (Lexeme.read c cs).rest).2, (p.after (Lexeme.read c cs).text).after
        (splitTrailing (Lexeme.read c cs).rest).1, false⟩ := rfl
  have htrailing := tokensFrom_of_isGap (p := p.after (Lexeme.read c cs).text)
    (isGap_splitTrailing (Lexeme.read c cs).rest)
  rw [append_splitTrailing] at htrailing
  rw [htrailing, tokensFrom, drain_of_lexeme rfl (by rw [hskip]), hskip, hbehind]
  rfl

/-- The first token of a text, and those behind it. -/
theorem tokensFrom_of_lexeme {rest : List Char} (h : (splitGap false cs).2 = c :: rest) :
    tokensFrom p cs = (Lexeme.read c rest).token (p.after (splitGap false cs).1) ::
      tokensFrom ((p.after (splitGap false cs).1).after (Lexeme.read c rest).text)
        (Lexeme.read c rest).rest := by
  obtain ⟨hblank, hhash⟩ := head_splitGap false cs c (by rw [h]; rfl)
  have hgap := isGap_splitGap cs
  rw [h] at hgap
  rw [← tokensFrom_of_word hblank hhash, ← tokensFrom_of_isGap hgap, ← h, append_splitGap]

/-- The tokens of a text that ends with a line feed, and of the text that is put behind it. -/
theorem tokensFrom_append (cs : List Char) : ∀ {p : Position}, cs.getLast? = some '\n' →
    (Text.HasQuote more → ∀ x ∈ lexemesOf cs, x.word.IsSettled) →
      tokensFrom p (cs ++ more) = tokensFrom p cs ++ tokensFrom (p.after cs) more := by
  fun_induction lexemesOf cs with
  | case1 cs hgap =>
    intro p hlast _
    have hmore : IsGap cs more := by
      have hall := isGap_of_splitGap hgap
      obtain ⟨front, rfl⟩ := List.getLast?_eq_some_iff.mp hlast
      exact hall.append_of_lineFeed
    rw [tokensFrom_of_gap hgap, List.nil_append, tokensFrom_of_isGap hmore]
  | case2 cs c rest hgap _ ih =>
    intro p hlast hsettled
    obtain ⟨hblank, hhash⟩ := head_splitGap false cs c (by rw [hgap]; rfl)
    have hc : c ≠ '\n' := by
      rintro rfl
      simp [Text.isBlank_lineFeed] at hblank
    have hfront := isGap_splitGap cs
    have hcs := append_splitGap false cs
    rw [hgap] at hfront hcs
    have hrest : rest.getLast? = some '\n' := by
      rw [← hcs, List.getLast?_append, List.getLast?_cons, Option.some_or,
        ← List.getLast?_cons] at hlast
      exact Text.getLast?_of_cons hlast hc
    -- the lexeme ends before the last line feed, so the text behind it ends with one too
    have hread : Lexeme.read c (rest ++ more) = (Lexeme.read c rest).append more :=
      Lexeme.read_append_line (List.mem_of_getLast? hrest) fun h =>
        hsettled h _ (List.mem_cons_self ..)
    have hmore := @ih ((p.after (splitGap false cs).1).after (Lexeme.read c rest).text)
      (Lexeme.getLast?_rest_read hc hrest) fun h x hx => hsettled h x (List.mem_cons_of_mem _ hx)
    have hplace : p.after cs = ((p.after (splitGap false cs).1).after
        (Lexeme.read c rest).text).after (Lexeme.read c rest).rest := by
      have htext : (Lexeme.read c rest).text ++ (Lexeme.read c rest).rest = c :: rest :=
        Lexeme.append_readBy lexemes c rest
      rw [← Position.after_append, ← Position.after_append, htext, hcs]
    have hfront' : IsGap (splitGap false cs).1 (c :: (rest ++ more)) := hfront.congr rfl
    have hsplit : cs ++ more = (splitGap false cs).1 ++ c :: (rest ++ more) := by
      rw [← List.cons_append, ← List.append_assoc, hcs]
    rw [hsplit, tokensFrom_of_isGap hfront', tokensFrom_of_word hblank hhash, hread,
      tokensFrom_of_lexeme hgap, hplace, List.cons_append, ← hmore]
    rfl

/-- Where a text with a label begins. -/
def origin (file : String) : Position := (ofText [] file).place

theorem tokenize_eq_tokensFrom (text : List Char) (file : String) :
    tokenize text file = tokensFrom (origin file) (text ++ ['\n']) := rfl

/-- A line feed at the end of a text makes no difference to its tokens. -/
theorem tokenize_append_lineFeed (text : List Char) (file : String) :
    tokenize (text ++ ['\n']) file = tokenize text file := by
  have hquote : ¬ Text.HasQuote ['\n'] := by
    rintro ⟨quote, hmem, rfl | rfl⟩ <;> simp at hmem
  have hnone : ∀ p, tokensFrom p ['\n'] = [] := fun p => tokensFrom_of_gap rfl
  rw [tokenize_eq_tokensFrom, tokensFrom_append _ (by simp) fun h => absurd h hquote, hnone,
    List.append_nil, tokenize_eq_tokensFrom]

/-- If all words of a text are settled, the words of another text come behind them when that text
is put behind a line feed. -/
theorem words_append_line {first second : List Char} {file : String}
    (h : ∀ w ∈ words first file, w.IsSettled) (file' other : String) :
    words (first ++ '\n' :: second) other = words first file ++ words second file' := by
  have hwords : ∀ (p : Position) (text : List Char),
      (tokensFrom p text).map (·.word) = (lexemesOf text).map (·.word) := fun p text =>
    words_drain ⟨text, p, false⟩ rfl
  rw [words_eq first] at h
  have hsplit : first ++ '\n' :: second ++ ['\n'] = first ++ ['\n'] ++ (second ++ ['\n']) := by
    simp
  rw [words_eq first, words_eq second, words, tokenize_eq_tokensFrom, hsplit,
    tokensFrom_append _ (by simp) fun _ => List.forall_mem_map.mp h, List.map_append, hwords,
    hwords]

end Lexer
end CircuitText
