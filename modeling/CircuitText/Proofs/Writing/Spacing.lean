import CircuitText.Proofs.Lexing.Drain
import CircuitText.Proofs.Lexing.Gap
import CircuitText.Proofs.Lexing.Spelling
import CircuitText.Proofs.Parsing.Phrase
import CircuitText.Proofs.Writing.Escape

/-!
# Writing words

Words are written one behind the other with a space after each, and then the lexer reads them back.
A space ends every name and every number, no symbol is the beginning of a longer one that has a
space in it, and a string is written with its quotes escaped.

* `Word.IsWritable` --- the words that can be written;
* `Word.spelling`, `spaced` --- how words are written;
* `Lexeme.read_spelling` --- each word is read back;
* `Lexer.words_spaced` --- and so are all.
-/

namespace CircuitText

namespace Word

/-- A word that can be written: a name, a number without sign and point, a text with all escapes
read that does not end in a backslash, a keyword, or a symbol. -/
inductive IsWritable : Word → Prop
  | name {x : String} (hname : IsName x.toList) : IsWritable ⟨.ident, x⟩
  | number {x : String} (hne : x.toList ≠ []) (hdigits : ∀ c ∈ x.toList, c.isDigit = true) :
      IsWritable ⟨.number, x⟩
  | string {x : String} (hread : Text.IsRead x.toList) (hlast : x.toList.getLast? ≠ some '\\') :
      IsWritable ⟨.string, x⟩
  | keyword {k : Kind} (hk : k ∈ Kind.keywords) : IsWritable ⟨k, k.render⟩
  | symbol {k : Kind} {x : String} {first : Char} {more : List Char}
      (hsort : ⟨.symbol first more, k⟩ ∈ lexemes) (hx : x.toList = first :: more) :
      IsWritable ⟨k, x⟩

/-- How a word is written. -/
def spelling (w : Word) : List Char :=
  if w.kind = .string then '"' :: (Text.escape '"' w.literal.toList ++ ['"']) else w.literal.toList

end Word

/-- Words with a space after each. -/
def spaced (ws : List Word) : List Char := ws.flatMap fun w => w.spelling ++ [' ']

/-! ## Reading a word back -/

namespace Lexeme

variable {c : Char} {cs text rest : List Char}

theorem stops_space : Text.Stops Char.isDigit (' ' :: rest) := Text.stops_cons.mpr (by decide)

/-- Digits are a number when neither a digit nor a point follows. -/
theorem splitNumber?_digits (hne : text ≠ []) (hdigits : ∀ c ∈ text, c.isDigit = true)
    (hstops : Text.Stops Char.isDigit rest) (hpoint : rest.head? ≠ some '.') :
    Pattern.splitNumber? (text ++ rest) = some (text, rest) := by
  have hsign : Pattern.splitSign (text ++ rest) = ([], text ++ rest) := by
    cases text with
    | nil => exact absurd rfl hne
    | cons d text =>
      have hd := hdigits d (List.mem_cons_self ..)
      rw [List.cons_append, Pattern.splitSign, if_neg]
      rintro (rfl | rfl) <;> exact absurd hd (by decide)
  have hfraction : Pattern.splitFraction rest = ([], rest) := by
    cases rest with
    | nil => rfl
    | cons d rest =>
      rw [Pattern.splitFraction, if_neg]
      rintro ⟨rfl, -⟩
      exact hpoint rfl
  simp only [Pattern.splitNumber?, hsign, Text.takeWhile_run hdigits hstops,
    Text.dropWhile_run hdigits hstops, hfraction]
  simp [hne]

theorem continuesWord_space : continuesWord ' ' = false := continuesWord_of_ascii (by decide)

/-- A name and a keyword are read up to the space. -/
theorem read_word (hc : startsWord c = true) (hcs : ∀ d ∈ cs, continuesWord d = true) :
    read c (cs ++ ' ' :: rest) =
      ⟨(Kind.ofKeyword? (String.ofList (c :: cs))).getD .ident, c :: cs, c :: cs, ' ' :: rest⟩ := by
  have hlow := le_toNat_of_startsWord hc
  have hne : ∀ {d : Char}, d.toNat < 0x41 → c ≠ d := by
    rintro d hd rfl
    omega
  have hdigit : c.isDigit = false := by
    rw [← Bool.not_eq_true, Char.isDigit_iff_toNat]
    have hnine : '9'.toNat = 57 := rfl
    omega
  have hsplit : Pattern.split? .word (c :: (cs ++ ' ' :: rest)) = some (c :: cs, ' ' :: rest) := by
    have hstops : Text.Stops continuesWord (' ' :: rest) :=
      Text.stops_cons.mpr continuesWord_space
    simp [Pattern.split?, hc, Text.takeWhile_run hcs hstops, Text.dropWhile_run hcs hstops]
  refine read_eq_of_split? [⟨.number, .number⟩, ⟨.string '"', .string⟩, ⟨.string '\'', .string⟩]
    (lexemes.drop 4) ⟨.word, .ident⟩ rfl ?_ hsplit
  have hnumber : Pattern.splitNumber? (c :: (cs ++ ' ' :: rest)) = none :=
    splitNumber?_eq_none hdigit ⟨hne (by decide), hne (by decide)⟩
  have hquotes : c ≠ '"' ∧ c ≠ '\'' := ⟨hne (by decide), hne (by decide)⟩
  simp [Pattern.split?, hnumber, hquotes]

set_option maxRecDepth 4000 in
/-- A symbol is read although something follows it. -/
theorem read_symbol {first : Char} {more : List Char} {k : Kind}
    (hsort : ⟨.symbol first more, k⟩ ∈ lexemes) :
    read first (more ++ ' ' :: rest) = ⟨k, first :: more, first :: more, ' ' :: rest⟩ := by
  simp only [lexemes, List.mem_cons, LexemeSort.mk.injEq, reduceCtorEq, false_and, false_or,
    Pattern.symbol.injEq, List.not_mem_nil, or_false] at hsort
  -- the symbols begin with different characters, so each is found by running down the list
  iterate 16
    rcases hsort with ⟨⟨rfl, rfl⟩, rfl⟩ | hsort
    · rfl
  obtain ⟨⟨rfl, rfl⟩, rfl⟩ := hsort
  rfl

/-- A number is read up to what is neither a digit nor a point. -/
theorem read_number (hc : c.isDigit = true) (hcs : ∀ d ∈ cs, d.isDigit = true)
    (hstops : Text.Stops Char.isDigit rest) (hpoint : rest.head? ≠ some '.') :
    read c (cs ++ rest) = ⟨.number, c :: cs, c :: cs, rest⟩ :=
  read_eq_of_split? [] (lexemes.drop 1) ⟨.number, .number⟩ rfl (by simp)
    (splitNumber?_digits (List.cons_ne_nil c cs) (List.forall_mem_cons.mpr ⟨hc, hcs⟩) hstops hpoint)

/-- Keywords are words. -/
theorem exists_word_of_keyword {k : Kind} (hk : k ∈ Kind.keywords) :
    ∃ c cs, k.render.toList = c :: cs ∧ startsWord c = true ∧
      (∀ d ∈ cs, continuesWord d = true) ∧ k ≠ .string := by
  simp only [Kind.keywords, List.mem_cons, List.not_mem_nil, or_false] at hk
  rcases hk with rfl | rfl | rfl | rfl <;>
    exact ⟨_, _, rfl, startsWord_of_ascii (by decide), continuesWord_of_all (by decide),
      by decide⟩

/-- A word that can be written is read back from its spelling, which begins with no blank. -/
theorem read_spelling {w : Word} (h : w.IsWritable) (rest : List Char) :
    ∃ c cs, w.spelling = c :: cs ∧ Text.isBlank c = false ∧ c ≠ '#' ∧
      read c (cs ++ ' ' :: rest) = ⟨w.kind, w.literal.toList, w.spelling, ' ' :: rest⟩ := by
  cases h with
  | name hname =>
    obtain ⟨⟨c, cs, htext, hc, hcs⟩, hkeyword⟩ := hname
    refine ⟨c, cs, htext, isBlank_of_startsWord hc, ?_, ?_⟩
    · rintro rfl
      exact absurd (le_toNat_of_startsWord hc) (by decide)
    · rw [htext] at hkeyword
      rw [read_word hc hcs, hkeyword, ← htext]
      rfl
  | @number x hne hdigits =>
    cases htext : x.toList with
    | nil => exact absurd htext hne
    | cons c cs =>
      rw [htext] at hdigits
      obtain ⟨hc, hcs⟩ := List.forall_mem_cons.mp hdigits
      obtain ⟨hblank, hcomment⟩ := isBlank_of_isDigit hc
      refine ⟨c, cs, htext, hblank, hcomment, ?_⟩
      rw [read_number hc hcs stops_space (by simp), ← htext]
      rfl
  | @string x hread hlast =>
    refine ⟨'"', _, rfl, by decide, by decide, ?_⟩
    rw [List.append_assoc, List.singleton_append,
      read_escape (.inl rfl) hread fun h => absurd h hlast]
    rfl
  | @keyword k hk =>
    obtain ⟨c, cs, htext, hc, hcs, hstring⟩ := exists_word_of_keyword hk
    have hspelling : Word.spelling ⟨k, k.render⟩ = c :: cs := by
      rw [Word.spelling, if_neg hstring, htext]
    refine ⟨c, cs, hspelling, isBlank_of_startsWord hc, ?_, ?_⟩
    · rintro rfl
      exact absurd (le_toNat_of_startsWord hc) (by decide)
    · rw [hspelling, read_word hc hcs, ← htext, String.ofList_toList, Kind.ofKeyword?_render hk]
      rfl
  | @symbol k x first more hsort hx =>
    obtain ⟨hblank, hcomment⟩ := isBlank_of_mem_characters hsort first (List.mem_cons_self ..)
    have hstring : k ≠ .string := by
      rintro rfl
      simp [lexemes] at hsort
    have hspelling : Word.spelling ⟨k, x⟩ = first :: more := by
      rw [Word.spelling, if_neg hstring, hx]
    refine ⟨first, more, hspelling, hblank, hcomment, ?_⟩
    rw [hspelling, read_symbol hsort, hx]

end Lexeme

/-! ## Reading all words back -/

namespace Lexer

/-- Behind a word the space is passed over. -/
theorem splitTrailing_space {cs : List Char} (hstops : Text.Stops isInlineBlank cs)
    (hcomment : cs.head? ≠ some '#') : splitTrailing (' ' :: cs) = ([' '], cs) := by
  have hspace : ∀ c ∈ [' '], isInlineBlank c = true := List.all_eq_true.mp (by decide)
  have hnone : splitComment cs = ([], cs) := by
    cases cs with
    | nil => rfl
    | cons c cs =>
      rw [splitComment, if_neg]
      rintro rfl
      exact hcomment rfl
  have htake := Text.takeWhile_run hspace hstops
  have hdrop := Text.dropWhile_run hspace hstops
  rw [List.singleton_append] at htake hdrop
  simp [splitTrailing, htake, hdrop, hnone]

/-- What stands behind a word and its space is another word, or the line feed. -/
theorem stops_spaced {ws : List Word} (h : ∀ w ∈ ws, w.IsWritable) :
    Text.Stops isInlineBlank (spaced ws ++ ['\n']) ∧ (spaced ws ++ ['\n']).head? ≠ some '#' := by
  cases ws with
  | nil => exact ⟨Text.stops_cons.mpr (by decide), by decide⟩
  | cons w ws =>
    obtain ⟨c, cs, hspelling, hblank, hcomment, -⟩ :=
      Lexeme.read_spelling (h w (List.mem_cons_self ..)) []
    rw [spaced, List.flatMap_cons, hspelling]
    exact ⟨Text.stops_cons.mpr (by simp [isInlineBlank, hblank]), by simp [hcomment]⟩

theorem drain_spaced {ws : List Word} (h : ∀ w ∈ ws, w.IsWritable) (l : Lexer)
    (hended : l.ended = false) (hrest : l.rest = spaced ws ++ ['\n']) :
    l.drain.1.map (·.word) = ws := by
  induction ws generalizing l with
  | nil =>
    have hgap : l.skipGap.rest = [] := by
      show (splitGap false l.rest).2 = []
      rw [hrest]
      rfl
    rw [drain_of_gap hended hgap]
    rfl
  | cons w ws ih =>
    obtain ⟨hw, hws⟩ := List.forall_mem_cons.mp h
    obtain ⟨c, cs, hspelling, hblank, hcomment, hread⟩ :=
      Lexeme.read_spelling hw (spaced ws ++ ['\n'])
    have hrest : l.rest = c :: (cs ++ ' ' :: (spaced ws ++ ['\n'])) := by
      rw [hrest, spaced, List.flatMap_cons, hspelling]
      simp [spaced]
    have hgap : l.skipGap.rest = c :: (cs ++ ' ' :: (spaced ws ++ ['\n'])) := by
      show (splitGap false l.rest).2 = _
      rw [hrest, splitGap_of_word hblank hcomment]
    have hbehind : (l.skipGap.behind c (cs ++ ' ' :: (spaced ws ++ ['\n']))).rest =
        spaced ws ++ ['\n'] := by
      obtain ⟨hstops, hhead⟩ := stops_spaced hws
      show (splitTrailing (Lexeme.read c _).rest).2 = _
      rw [hread, splitTrailing_space hstops hhead]
    rw [drain_of_lexeme hended hgap, List.map_cons, ih hws (l.skipGap.behind c _) hended hbehind]
    congr 1
    show (⟨(Lexeme.read c _).kind, String.ofList (Lexeme.read c _).literal⟩ : Word) = w
    rw [hread, String.ofList_toList]

/-- Words that can be written are the words of the text that is written. -/
theorem words_spaced {ws : List Word} (h : ∀ w ∈ ws, w.IsWritable) (file : String) :
    words (spaced ws) file = ws :=
  drain_spaced h (.ofText (spaced ws) file) rfl rfl

end Lexer
end CircuitText
