import CircuitText.Proofs.Writing.Escape
import Mathlib.Data.List.Induction

/-!
# Quotes behind backslashes

Two parts of the language look at the backslashes of a string.  What closes a string is judged by
the one character in front of a quote, so that a quote inside a string always stands behind a
backslash, which is there to escape it.  What the string stands for is read from the left, a
backslash and the character after it being one *piece*.  The two agree on a quote inside the string
if it is read as the second character of a pair: then it is in the literal without the backslash
that escapes it.

Whether they agree depends on the length of the run of backslashes in front of the quote.  Pieces
begin anew at such a run, since what stands in front of it is no backslash.  A run of odd length
leaves one backslash over, which makes a pair with the quote.  A run of even length is used up by
pairs of backslashes.  There the two parts go different ways: the scan has passed over the quote as
an escaped one, and the reading takes it as an ordinary character and leaves all the backslashes in
front of it in the literal.  So the two agree on a whole string exactly if no quote inside it stands
behind a run of even length.

* `Text.Piece`, `Text.pieces` --- what is read at once, and the pieces of a body;
* `Text.pieces_append`, `Text.pieces_backslashes` --- where pieces begin anew;
* `Text.exists_pair_iff`, `Text.plain_notMem_pieces_iff` --- the quotes that are read in pairs;
* `Lexer.exists_lexeme_of_mem_tokenize` --- the lexeme of a token;
* `Lexer.pieces_of_quote` --- when the quotes inside a string are read as they were scanned.
-/

namespace CircuitText
namespace Text

/-! ## Pieces -/

/-- What is read at once of the body of a string. -/
inductive Piece where
  /-- A character that is no backslash. -/
  | plain (c : Char)
  /-- A backslash and the character after it. -/
  | pair (c : Char)
  /-- A backslash with nothing after it. -/
  | lone
  deriving DecidableEq, Repr

namespace Piece

/-- The characters that a piece is written with. -/
def spelling : Piece → List Char
  | .plain c => [c]
  | .pair c => ['\\', c]
  | .lone => ['\\']

/-- The characters that a piece stands for. -/
def value : Piece → List Char
  | .plain c => [c]
  | .pair c => readPair c
  | .lone => ['\\']

end Piece

/-- The pieces of a body, read from the left. -/
def pieces : List Char → List Piece
  | [] => []
  | c :: rest =>
    if c = '\\' then
      match rest with
      | [] => [.lone]
      | d :: rest => .pair d :: pieces rest
    else .plain c :: pieces rest

variable {c d : Char} {front rest body : List Char}

theorem pieces_pair (d : Char) (rest : List Char) :
    pieces ('\\' :: d :: rest) = .pair d :: pieces rest := by
  simp [pieces]

theorem pieces_plain (hc : c ≠ '\\') (rest : List Char) :
    pieces (c :: rest) = .plain c :: pieces rest := by
  rw [pieces.eq_def]
  simp [hc]

/-- The pieces of a body are written one after the other. -/
theorem flatMap_spelling_pieces (body : List Char) :
    (pieces body).flatMap Piece.spelling = body := by
  induction body using unescape.induct with
  | case1 => rfl
  | case2 => rfl
  | case3 d rest ih => rw [pieces_pair, List.flatMap_cons, ih]; rfl
  | case4 c rest hc ih => rw [pieces_plain hc, List.flatMap_cons, ih]; rfl

/-- Escapes are read piece by piece. -/
theorem flatMap_value_pieces (body : List Char) :
    (pieces body).flatMap Piece.value = unescape body := by
  induction body using unescape.induct with
  | case1 => rfl
  | case2 => rfl
  | case3 d rest ih => rw [pieces_pair, List.flatMap_cons, ih, unescape_pair]; rfl
  | case4 c rest hc ih => rw [pieces_plain hc, List.flatMap_cons, ih, unescape_cons hc]; rfl

/-- Behind a character that is no backslash a piece begins. -/
theorem pieces_append (h : front.getLast? ≠ some '\\') :
    pieces (front ++ rest) = pieces front ++ pieces rest := by
  induction front using unescape.induct with
  | case1 => rfl
  | case2 => exact absurd rfl h
  | case3 d front ih =>
    have hfront : front.getLast? ≠ some '\\' := fun hlast =>
      h (by rw [List.getLast?_cons_cons, List.getLast?_cons, hlast]; rfl)
    rw [List.cons_append, List.cons_append, pieces_pair, pieces_pair, ih hfront, List.cons_append]
  | case4 c front hc ih =>
    have hfront : front.getLast? ≠ some '\\' := fun hlast =>
      h (by rw [List.getLast?_cons, hlast]; rfl)
    rw [List.cons_append, pieces_plain hc, pieces_plain hc, ih hfront, List.cons_append]

/-- Backslashes are read in pairs. -/
theorem pieces_backslashes (k : Nat) (rest : List Char) :
    pieces (List.replicate (2 * k) '\\' ++ rest) =
      List.replicate k (.pair '\\') ++ pieces rest := by
  induction k with
  | zero => rfl
  | succ k ih =>
    rw [Nat.mul_succ, List.replicate_succ, List.replicate_succ, List.cons_append,
      List.cons_append, pieces_pair, ih, List.replicate_succ, List.cons_append]

/-- A pair of backslashes stands for itself. -/
theorem flatMap_value_backslashes (k : Nat) :
    (List.replicate k (Piece.pair '\\')).flatMap Piece.value = List.replicate (2 * k) '\\' := by
  induction k with
  | zero => rfl
  | succ k ih =>
    rw [Nat.mul_succ, List.replicate_succ, List.flatMap_cons, ih, List.replicate_succ,
      List.replicate_succ]
    rfl

/-- Behind an even number of backslashes a piece begins. -/
theorem pieces_append_backslashes (h : front.getLast? ≠ some '\\') (k : Nat) (rest : List Char) :
    pieces (front ++ List.replicate (2 * k) '\\' ++ rest) =
      pieces front ++ List.replicate k (.pair '\\') ++ pieces rest := by
  rw [List.append_assoc, pieces_append h, pieces_backslashes, List.append_assoc]

/-- An even number of backslashes is kept. -/
theorem unescape_append_backslashes (h : front.getLast? ≠ some '\\') (k : Nat)
    (rest : List Char) :
    unescape (front ++ List.replicate (2 * k) '\\' ++ rest) =
      unescape front ++ List.replicate (2 * k) '\\' ++ unescape rest := by
  simp only [← flatMap_value_pieces, pieces_append_backslashes h, List.flatMap_append,
    flatMap_value_backslashes]

theorem append_backslashes_succ (front rest : List Char) (k : Nat) :
    front ++ List.replicate (2 * k + 1) '\\' ++ rest =
      front ++ List.replicate (2 * k) '\\' ++ '\\' :: rest := by
  rw [List.replicate_succ', ← List.append_assoc, List.append_assoc _ ['\\']]
  rfl

/-! ## Runs of backslashes -/

/-- How many backslashes a text ends in. -/
def backslashes (text : List Char) : Nat := (text.reverse.takeWhile (· == '\\')).length

/-- A text is a part that does not end in a backslash, and a run of backslashes. -/
theorem exists_run (text : List Char) : ∃ front,
    text = front ++ List.replicate (backslashes text) '\\' ∧ front.getLast? ≠ some '\\' := by
  induction text using List.reverseRecOn with
  | nil => exact ⟨[], rfl, by simp⟩
  | append_singleton text c ih =>
    by_cases hc : c = '\\'
    · obtain ⟨front, htext, hfront⟩ := ih
      have hrun : backslashes (text ++ [c]) = backslashes text + 1 := by simp [backslashes, hc]
      refine ⟨front, ?_, hfront⟩
      rw [hrun, List.replicate_succ', ← List.append_assoc, ← htext, hc]
    · have hrun : backslashes (text ++ [c]) = 0 := by simp [backslashes, hc]
      exact ⟨text ++ [c], by simp [hrun], by simpa using hc⟩

/-- Behind an odd number of backslashes a character is the second of a pair. -/
theorem pieces_odd (h : front.getLast? ≠ some '\\') (k : Nat) (c : Char) (rest : List Char) :
    pieces (front ++ List.replicate (2 * k + 1) '\\' ++ c :: rest) =
      pieces front ++ List.replicate k (.pair '\\') ++ .pair c :: pieces rest := by
  rw [append_backslashes_succ, pieces_append_backslashes h, pieces_pair]

/-- Behind an even number of backslashes a character is read by itself. -/
theorem pieces_even (h : front.getLast? ≠ some '\\') (k : Nat) (hc : c ≠ '\\')
    (rest : List Char) :
    pieces (front ++ List.replicate (2 * k) '\\' ++ c :: rest) =
      pieces front ++ List.replicate k (.pair '\\') ++ .plain c :: pieces rest := by
  rw [pieces_append_backslashes h, pieces_plain hc]

/-- The pieces of a text and an even run behind it are written as these are. -/
theorem flatMap_spelling_run (h : front.getLast? ≠ some '\\') (k : Nat) :
    (pieces front ++ List.replicate k (Piece.pair '\\')).flatMap Piece.spelling =
      front ++ List.replicate (2 * k) '\\' := by
  have hpieces := pieces_append_backslashes h k []
  rw [List.append_nil, show pieces [] = [] from rfl, List.append_nil] at hpieces
  rw [← hpieces, flatMap_spelling_pieces]

/-- A character is not both read by itself and as the second of a pair. -/
theorem not_plain_and_pair {first second first' second' : List Piece} {c d : Char}
    (hpieces : first ++ .plain c :: second = first' ++ .pair d :: second') :
    first.flatMap Piece.spelling ≠ first'.flatMap Piece.spelling ++ ['\\'] := by
  intro hspelling
  have hlength := congrArg List.length hspelling
  rcases List.append_eq_append_iff.mp hpieces with ⟨between, rfl, -⟩ | ⟨between, rfl, hbetween⟩
  · simp only [List.flatMap_append, List.length_append, List.length_singleton] at hlength
    omega
  · cases between with
    | nil => simp at hbetween
    | cons piece between =>
      obtain ⟨rfl, -⟩ := List.cons.inj hbetween
      simp only [List.flatMap_append, List.flatMap_cons, Piece.spelling, List.length_append,
        List.length_cons, List.length_nil] at hlength
      omega

/-- A quote is read as the second character of a pair if and only if the run of backslashes in front
of it is of odd length. -/
theorem exists_pair_iff {quote : Char} (hquote : quote ≠ '\\') (before after : List Char) :
    (∃ first second, pieces (before ++ quote :: after) = first ++ .pair quote :: second ∧
      first.flatMap Piece.spelling ++ ['\\'] = before ∧ second.flatMap Piece.spelling = after) ↔
    backslashes before % 2 = 1 := by
  obtain ⟨front, hbefore, hfront⟩ := exists_run before
  generalize backslashes before = n at hbefore
  subst hbefore
  obtain ⟨k, rfl | rfl⟩ : ∃ k, n = 2 * k ∨ n = 2 * k + 1 := ⟨n / 2, by omega⟩
  · refine iff_of_false ?_ (by omega)
    rintro ⟨first, second, hpieces, hfirst, -⟩
    rw [pieces_even hfront k hquote] at hpieces
    exact not_plain_and_pair hpieces ((flatMap_spelling_run hfront k).trans hfirst.symm)
  · refine iff_of_true ⟨_, _, pieces_odd hfront k quote after, ?_, flatMap_spelling_pieces after⟩
      (by omega)
    rw [flatMap_spelling_run hfront, List.replicate_succ', List.append_assoc]

/-- No quote is read by itself if and only if all runs of backslashes in front of quotes are of odd
length. -/
theorem plain_notMem_pieces_iff {quote : Char} (hquote : quote ≠ '\\') :
    .plain quote ∉ pieces body ↔
      ∀ before after, body = before ++ quote :: after → backslashes before % 2 = 1 := by
  constructor
  · rintro hplain before after rfl
    by_contra hodd
    obtain ⟨front, hbefore, hfront⟩ := exists_run before
    have hrun : backslashes before = 2 * (backslashes before / 2) := by omega
    rw [hbefore, hrun, pieces_even hfront _ hquote] at hplain
    simp at hplain
  · intro hodd hplain
    obtain ⟨first, second, hpieces⟩ := List.append_of_mem hplain
    have hbody : body = first.flatMap Piece.spelling ++ quote :: second.flatMap Piece.spelling := by
      rw [← flatMap_spelling_pieces body, hpieces, List.flatMap_append, List.flatMap_cons]
      rfl
    obtain ⟨first', second', hpieces', hfirst, -⟩ :=
      (exists_pair_iff hquote _ _).mpr (hodd _ _ hbody)
    rw [← hbody, hpieces] at hpieces'
    exact not_plain_and_pair hpieces' hfirst.symm

end Text

/-! ## Tokens of strings -/

namespace Lexeme

variable {c : Char} {cs : List Char}

/-- A string is read from a quote and from what the quote that closes it ends. -/
theorem exists_closes_of_read (h : (read c cs).kind = .string) :
    ∃ body rest, (c = '"' ∨ c = '\'') ∧ Pattern.Closes c c body rest ∧
      read c cs = ⟨.string, Text.unescape body, c :: (body ++ [c]), rest⟩ := by
  have hspells := spells_read c cs
  rw [h] at hspells
  obtain ⟨quote, body, hquote, htext, -⟩ := hspells.exists_body
  have hsplit : (read c cs).text ++ (read c cs).rest = c :: cs := append_readBy lexemes c cs
  rw [htext, List.cons_append, List.append_assoc] at hsplit
  obtain ⟨rfl, hcs⟩ := List.cons.inj hsplit
  have hmem : quote ∈ cs := by
    rw [← hcs]
    simp
  obtain ⟨body, rest, rfl, hcloses⟩ :
      ∃ body rest, cs = body ++ quote :: rest ∧ Pattern.Closes quote quote body rest :=
    Pattern.exists_closes (ne_backslash hquote) hmem
  exact ⟨body, rest, hquote, hcloses, read_of_closes hquote hcloses⟩

end Lexeme

namespace Lexer

variable {text : List Char} {file : String} {t : Token}

/-- A token is the word of a lexeme, and its span covers the lexeme. -/
theorem exists_lexeme_of_mem_tokenize (h : t ∈ tokenize text file) :
    ∃ x ∈ lexemesOf (text ++ ['\n']), x.word = t.word ∧ x.text = t.span.cut text := by
  obtain ⟨i, hi, rfl⟩ := List.getElem_of_mem h
  have hwords := words_eq text file
  have hcuts := map_cut_tokenize text file
  have hi' : i < (lexemesOf (text ++ ['\n'])).length := by
    have hlength := congrArg List.length hcuts
    rw [List.length_map, List.length_map] at hlength
    omega
  refine ⟨(lexemesOf (text ++ ['\n']))[i], List.getElem_mem hi', ?_, ?_⟩
  · have hword := congrArg (·[i]?) hwords
    simpa [words, hi, hi'] using hword.symm
  · have hcut := congrArg (·[i]?) hcuts
    simpa [hi, hi'] using hcut.symm

end Lexer

/-- The lexemes of strings are what the quotes that close them end. -/
theorem exists_closes_of_mem_lexemesOf (cs : List Char) : ∀ x ∈ lexemesOf cs, x.kind = .string →
    ∃ quote body, (quote = '"' ∨ quote = '\'') ∧ Pattern.Closes quote quote body x.rest ∧
      x.literal = Text.unescape body ∧ x.text = quote :: (body ++ [quote]) := by
  fun_induction lexemesOf cs with
  | case1 cs hgap => simp
  | case2 cs c rest hgap _ ih =>
    refine List.forall_mem_cons.mpr ⟨fun hkind => ?_, ih⟩
    obtain ⟨body, after, hquote, hcloses, hread⟩ := Lexeme.exists_closes_of_read hkind
    exact ⟨c, body, hquote, by rwa [hread], by rw [hread], by rw [hread]⟩

namespace Lexer

variable {text : List Char} {file : String} {t : Token}

/-- What a string stands for, and that the quotes inside it stand behind backslashes. -/
theorem exists_masked_of_mem_tokenize (ht : t ∈ tokenize text file) (hkind : t.kind = .string)
    {quote : Char} {body : List Char} (hcut : t.span.cut text = quote :: (body ++ [quote])) :
    (quote = '"' ∨ quote = '\'') ∧ Pattern.Masked quote quote body ∧
      t.literal.toList = Text.unescape body := by
  obtain ⟨x, hx, hword, htext⟩ := exists_lexeme_of_mem_tokenize ht
  obtain ⟨hkind', hliteral⟩ := Word.mk.inj hword
  obtain ⟨quote', body', hquote, hcloses, hvalue, hspelling⟩ :=
    exists_closes_of_mem_lexemesOf _ x hx (hkind'.trans hkind)
  rw [hcut, hspelling] at htext
  obtain ⟨rfl, htext⟩ := List.cons.inj htext
  obtain rfl := List.append_cancel_right htext
  refine ⟨hquote, hcloses.masked_body, ?_⟩
  rw [← hvalue, ← String.toList_ofList (l := x.literal), hliteral]

/-- A quote of the same sort inside a string stands behind a run of backslashes, the last of which
the scan has taken to escape it.  It is read as the second character of a pair, and so is in the
literal without that backslash, if and only if the run is of odd length.  If the run is of even
length the reading does not do what the scan did: the quote is read by itself and is in the literal
behind the whole run.  So no quote inside a string is read by itself if and only if all these runs
are of odd length. -/
theorem pieces_of_quote (ht : t ∈ tokenize text file) (hkind : t.kind = .string) {quote : Char}
    {body : List Char} (hcut : t.span.cut text = quote :: (body ++ [quote])) :
    (∀ before after, body = before ++ quote :: after →
      ((∃ first second, Text.pieces body = first ++ .pair quote :: second ∧
        first.flatMap Text.Piece.spelling ++ ['\\'] = before ∧
        second.flatMap Text.Piece.spelling = after) ↔ Text.backslashes before % 2 = 1) ∧
      ∃ front n, n = Text.backslashes before ∧
        before = front ++ List.replicate n '\\' ∧ front.getLast? ≠ some '\\' ∧ 0 < n ∧
        (∀ k, n = 2 * k + 1 →
          Text.pieces body = Text.pieces front ++ List.replicate k (.pair '\\') ++
            .pair quote :: Text.pieces after ∧
          t.literal.toList = Text.unescape front ++ List.replicate (2 * k) '\\' ++
            quote :: Text.unescape after) ∧
        (∀ k, n = 2 * k →
          Text.pieces body = Text.pieces front ++ List.replicate k (.pair '\\') ++
            .plain quote :: Text.pieces after ∧
          t.literal.toList = Text.unescape front ++ List.replicate (2 * k) '\\' ++
            quote :: Text.unescape after)) ∧
    (.plain quote ∉ Text.pieces body ↔
      ∀ before after, body = before ++ quote :: after → Text.backslashes before % 2 = 1) := by
  obtain ⟨hquote, hmasked, hliteral⟩ := exists_masked_of_mem_tokenize ht hkind hcut
  have hne := Lexeme.ne_backslash hquote
  have hpair : Text.readPair quote = [quote] := by
    rw [Text.readPair, Lexeme.escaped?_quote hquote]
  refine ⟨?_, Text.plain_notMem_pieces_iff hne⟩
  rintro before after rfl
  refine ⟨Text.exists_pair_iff hne before after, ?_⟩
  obtain ⟨front, hbefore, hfront⟩ := Text.exists_run before
  rw [hliteral]
  refine ⟨front, _, rfl, hbefore, hfront, ?_, ?_, ?_⟩
  · -- without a backslash in front of it the quote would have closed the string
    have hlast := Text.getLast?_of_cons (hmasked before after rfl) hne
    refine Nat.pos_of_ne_zero fun hzero => hfront ?_
    rw [hbefore, hzero, List.replicate_zero, List.append_nil] at hlast
    exact hlast
  · intro k hk
    rw [hbefore, hk, Text.pieces_odd hfront, Text.append_backslashes_succ,
      Text.unescape_append_backslashes hfront, Text.unescape_pair, hpair]
    exact ⟨rfl, rfl⟩
  · intro k hk
    rw [hbefore, hk, Text.pieces_even hfront k hne, Text.unescape_append_backslashes hfront,
      Text.unescape_cons hne]
    exact ⟨rfl, rfl⟩

/-- The quote inside the string stands behind three backslashes: two of them make a pair, and the
quote is read together with the third. -/
theorem pieces_of_quote_odd :
    let text := "'a\\\\\\'b'".toList
    let t : Token := ⟨.string, "a\\\\'b", ⟨⟨"here", 1, 1⟩, ⟨"here", 1, 8⟩⟩⟩
    let body := "a\\\\\\'b".toList
    let before := "a\\\\\\".toList
    t ∈ tokenize text "here" ∧ t.kind = .string ∧ t.span.cut text = '\'' :: (body ++ ['\'']) ∧
      body = before ++ '\'' :: ['b'] ∧ Text.backslashes before = 3 ∧
      (∃ first second, Text.pieces body = first ++ .pair '\'' :: second ∧
        first.flatMap Text.Piece.spelling ++ ['\\'] = before ∧
        second.flatMap Text.Piece.spelling = ['b']) ∧
      .plain '\'' ∉ Text.pieces body ∧
      ∀ before after, body = before ++ '\'' :: after → Text.backslashes before % 2 = 1 := by
  intro text t body before
  have ht : t ∈ tokenize text "here" := by decide +kernel
  have hcut : t.span.cut text = '\'' :: (body ++ ['\'']) := by decide +kernel
  have hplain : .plain '\'' ∉ Text.pieces body := by decide +kernel
  have hreading := pieces_of_quote ht rfl hcut
  exact ⟨ht, rfl, hcut, rfl, rfl, (hreading.1 before ['b'] rfl).1.mpr (by decide), hplain,
    hreading.2.mp hplain⟩

/-- Not every quote inside a string makes a pair with the backslash in front of it, although the
string is closed by a quote that stands behind no backslash.  Here the scan has passed over a quote
behind two backslashes; the reading makes a pair of these, and all three are in the literal. -/
theorem not_forall_quote_pair :
    let text := "\"\\\\\" x\"".toList
    words text "here" = [⟨.string, "\\\\\" x"⟩] ∧
      Text.pieces "\\\\\" x".toList = [.pair '\\', .plain '"', .plain ' ', .plain 'x'] ∧
      ¬ ∀ t ∈ tokenize text "here", t.kind = .string →
        ∀ quote body, t.span.cut text = quote :: (body ++ [quote]) →
          body.getLast? ≠ some '\\' → ∀ before after, body = before ++ quote :: after →
            ∃ first second, Text.pieces body = first ++ .pair quote :: second ∧
              first.flatMap Text.Piece.spelling ++ ['\\'] = before ∧
              second.flatMap Text.Piece.spelling = after := by
  intro text
  refine ⟨by decide +kernel, by decide +kernel, fun hall => ?_⟩
  let t : Token := ⟨.string, "\\\\\" x", ⟨⟨"here", 1, 1⟩, ⟨"here", 1, 7⟩⟩⟩
  have ht : t ∈ tokenize text "here" := by decide +kernel
  have hcut : t.span.cut text = '"' :: ("\\\\\" x".toList ++ ['"']) := by decide +kernel
  obtain ⟨first, second, hpieces, -, -⟩ :=
    hall t ht rfl '"' _ hcut (by decide) ['\\', '\\'] [' ', 'x'] rfl
  have hmem : Text.Piece.pair '"' ∈ Text.pieces "\\\\\" x".toList := by
    rw [hpieces]
    simp
  exact absurd hmem (by decide +kernel)

end Lexer
end CircuitText
