import CircuitText.Proofs.Lexing.Closing

/-!
# Texts that can be written as strings

The literal of a string is what is left when its escapes have been read, so nothing in it can be
read as an escape again (`unescape_unescape`).  Conversely a text in which no escape is left is the
literal of the string that has a backslash put before each quote of the sort it is written between.
Only a text that ends in a backslash may be read differently, since the backslash keeps the closing
quote from closing the string when there is a later one.

* `IsRead`, `unescape_unescape` --- all escapes have been read;
* `escape`, `unescape_escape` --- writing such a text between quotes;
* `Lexeme.read_escape` --- the string is read back;
* `Lexer.exists_quoted_iff_unescape_eq` --- which texts are the literals of strings.
-/

namespace CircuitText
namespace Text

/-- All escapes of a text have been read. -/
def IsRead (text : List Char) : Prop := unescape text = text

/-- No pair of the table stands for a backslash. -/
theorem escaped?_ne_backslash {c d : Char} (h : escaped? c = some d) : d ≠ '\\' := by
  unfold escaped? at h
  split at h <;> simp only [Option.some.injEq, reduceCtorEq] at h <;> (subst h; decide)

/-- What a pair stands for is read as itself. -/
theorem unescape_readPair_append (c : Char) (rest : List Char) :
    unescape (readPair c ++ rest) = readPair c ++ unescape rest := by
  cases h : escaped? c with
  | some d =>
    have hpair : readPair c = [d] := by simp [readPair, h]
    rw [hpair]
    exact unescape_cons (escaped?_ne_backslash h) rest
  | none =>
    have hpair : readPair c = ['\\', c] := by simp [readPair, h]
    rw [hpair]
    show unescape ('\\' :: c :: rest) = _
    rw [unescape_pair, hpair]

/-- Reading the escapes once more changes nothing. -/
theorem unescape_unescape (body : List Char) : IsRead (unescape body) := by
  unfold IsRead
  induction body using unescape.induct with
  | case1 => rfl
  | case2 => rfl
  | case3 d rest ih => rw [unescape_pair, unescape_readPair_append, ih]
  | case4 c rest hc ih => rw [unescape_cons hc, unescape_cons hc, ih]

/-- The body of a string between two of the given quotes: each such quote in the text has a
backslash before it. -/
def escape (quote : Char) : List Char → List Char
  | [] => []
  | c :: rest => if c = quote then '\\' :: c :: escape quote rest else c :: escape quote rest

variable {quote : Char}

theorem escape_cons {c : Char} (hc : c ≠ quote) (rest : List Char) :
    escape quote (c :: rest) = c :: escape quote rest := by simp [escape, hc]

theorem escape_quote (rest : List Char) :
    escape quote (quote :: rest) = '\\' :: quote :: escape quote rest := by simp [escape]

/-- A pair that is left in a text with all escapes read is none of the table. -/
theorem isRead_pair {d : Char} {rest : List Char} (h : IsRead ('\\' :: d :: rest)) :
    escaped? d = none ∧ IsRead rest := by
  rw [IsRead, unescape_pair] at h
  cases hd : escaped? d with
  | some e =>
    simp only [readPair, hd, List.cons_append, List.cons.injEq] at h
    exact absurd h.1 (escaped?_ne_backslash hd)
  | none =>
    simp only [readPair, hd, List.cons_append, List.nil_append, List.cons.injEq, true_and] at h
    exact ⟨rfl, h⟩

/-- The escapes of an escaped text are those that were put in. -/
theorem unescape_escape {text : List Char} (hquote : escaped? quote = some quote)
    (h : IsRead text) : unescape (escape quote text) = text := by
  have hne : quote ≠ '\\' := escaped?_ne_backslash hquote
  induction text using unescape.induct with
  | case1 => rfl
  | case2 => rw [escape_cons hne.symm]; rfl
  | case3 d rest ih =>
    obtain ⟨hd, hrest⟩ := isRead_pair h
    have hdquote : d ≠ quote := by
      rintro rfl
      simp [hquote] at hd
    rw [escape_cons hne.symm, escape_cons hdquote, unescape_pair, ih hrest]
    simp [readPair, hd]
  | case4 c rest hc ih =>
    rw [IsRead, unescape_cons hc] at h
    have hrest : IsRead rest := (List.cons.inj h).2
    by_cases hcquote : c = quote
    · subst hcquote
      rw [escape_quote, unescape_pair, ih hrest]
      simp [readPair, hquote]
    · rw [escape_cons hcquote, unescape_cons hc, ih hrest]

end Text

/-- The quote behind an escaped text closes the string, unless the text ends in a backslash and
there is a later quote; `prev` is the character in front of the text. -/
theorem Pattern.closes_escape {quote prev : Char} {text rest : List Char} (hquote : quote ≠ '\\')
    (hrest : (prev :: text).getLast? = some '\\' → quote ∉ rest) :
    Closes quote prev (Text.escape quote text) rest := by
  induction text generalizing prev with
  | nil => exact closes_nil.mpr fun hprev => hrest (by simp [hprev])
  | cons c text ih =>
    have hrest' : (c :: text).getLast? = some '\\' → quote ∉ rest := fun h =>
      hrest (by rwa [List.getLast?_cons_cons])
    by_cases hc : c = quote
    · subst hc
      -- the backslash put before the quote keeps it from closing the string
      rw [Text.escape_quote]
      exact closes_cons.mpr
        ⟨fun h => absurd h.symm hquote, closes_cons.mpr ⟨fun _ => rfl, ih hrest'⟩⟩
    · rw [Text.escape_cons hc]
      exact closes_cons.mpr ⟨fun h => absurd h hc, ih hrest'⟩

namespace Lexeme

variable {quote : Char} {text rest : List Char}

theorem escaped?_quote (hquote : quote = '"' ∨ quote = '\'') :
    Text.escaped? quote = some quote := by
  rcases hquote with rfl | rfl <;> rfl

/-- A text with all escapes read is read back from the string that it is written in. -/
theorem read_escape (hquote : quote = '"' ∨ quote = '\'') (hread : Text.IsRead text)
    (hrest : text.getLast? = some '\\' → quote ∉ rest) :
    read quote (Text.escape quote text ++ quote :: rest) =
      ⟨.string, text, quote :: (Text.escape quote text ++ [quote]), rest⟩ := by
  have hne := ne_backslash hquote
  have hcloses : Pattern.Closes quote quote (Text.escape quote text) rest := by
    exact Pattern.closes_escape hne fun h => hrest (Text.getLast?_of_cons h hne)
  rw [read_of_closes hquote hcloses, Text.unescape_escape (escaped?_quote hquote) hread]

end Lexeme

/-! ## Strings by themselves -/

/-- What a string stands for has all escapes read. -/
theorem Word.isRead_of_isSpelled {x : String} (h : IsSpelled ⟨.string, x⟩) :
    Text.IsRead x.toList := by
  obtain ⟨text, h⟩ := h
  obtain ⟨quote, body, -, -, hliteral⟩ := Lexeme.Spells.exists_body h
  rw [hliteral]
  exact Text.unescape_unescape body

namespace Lexer

/-- An escaped text between quotes has one word, the string that stands for the text.  There is no
later quote, so the text may end in a backslash. -/
theorem words_escape {quote : Char} {v : String} (hquote : quote = '"' ∨ quote = '\'')
    (hread : Text.IsRead v.toList) (file : String) :
    words (quote :: (Text.escape quote v.toList ++ [quote])) file = [⟨.string, v⟩] := by
  obtain ⟨hblank, hhash⟩ := isBlank_quote hquote
  have hfeed : quote ∉ ['\n'] := by rcases hquote with rfl | rfl <;> decide
  have hgap : (splitGap false (quote :: (Text.escape quote v.toList ++ quote :: ['\n']))).2 =
      quote :: (Text.escape quote v.toList ++ quote :: ['\n']) := by
    rw [splitGap_of_word hblank hhash]
  have hnone : lexemesOf ['\n'] = [] := lexemesOf_of_gap rfl
  have htext : quote :: (Text.escape quote v.toList ++ [quote]) ++ ['\n'] =
      quote :: (Text.escape quote v.toList ++ quote :: ['\n']) := by simp
  rw [words_eq, htext, lexemesOf_of_lexeme hgap,
    Lexeme.read_escape hquote hread fun _ => hfeed, hnone]
  simp [Lexeme.word]

/-- Reading the escapes of a text a second time changes nothing.  A text is the literal of some
string, between quotes of either sort, just when reading its escapes does not change it; and so
the literals of all strings in a text are of this kind. -/
theorem exists_quoted_iff_unescape_eq (file : String) :
    (∀ x, Text.unescape (Text.unescape x) = Text.unescape x) ∧
      (∀ (v : String) (quote : Char), quote = '"' ∨ quote = '\'' →
        ((∃ body, words (quote :: (body ++ [quote])) file = [⟨.string, v⟩]) ↔
          Text.unescape v.toList = v.toList)) ∧
      ∀ (text : List Char), ∀ w ∈ words text file, w.kind = .string →
        Text.unescape w.literal.toList = w.literal.toList := by
  refine ⟨Text.unescape_unescape, fun v quote hquote => ⟨?_, fun hread => ?_⟩, ?_⟩
  · rintro ⟨body, hwords⟩
    exact Word.isRead_of_isSpelled (isSpelled_of_mem_words ⟨.string, v⟩ (by rw [hwords]; simp))
  · exact ⟨Text.escape quote v.toList, words_escape hquote hread file⟩
  · rintro text ⟨k, x⟩ hw rfl
    exact Word.isRead_of_isSpelled (isSpelled_of_mem_words _ hw)

/-- A text with both quotes, a line feed, a control character, a pair that is none of the table and
a backslash at its end can be written between quotes of either sort. -/
theorem exists_quoted_iff_unescape_eq_backslash :
    let v := "'\"\n\x07\\q\\"
    Text.unescape v.toList = v.toList ∧
      (∃ body, words ('"' :: (body ++ ['"'])) "here" = [⟨.string, v⟩]) ∧
      ∃ body, words ('\'' :: (body ++ ['\''])) "here" = [⟨.string, v⟩] := by
  intro v
  have hread : Text.unescape v.toList = v.toList := by decide +kernel
  obtain ⟨-, hwritten, -⟩ := exists_quoted_iff_unescape_eq "here"
  exact ⟨hread, (hwritten v '"' (.inl rfl)).mpr hread, (hwritten v '\'' (.inr rfl)).mpr hread⟩

end Lexer
end CircuitText
