import CircuitText.Proofs.Lexing.Appending
import CircuitText.Proofs.Session.Yielding

/-!
# Lines and texts

In a session each line is lexed by itself, and its places count from its own start.  Still the
tokens are those of the whole text, if no string and no quote reaches beyond its line; only the
lines in their spans are lost.  Nothing else can reach beyond a line, so it is enough that the words
of each line are settled.

The session cuts bytes, and the tokens are those of characters.  A line feed is one byte in UTF-8,
and that byte is in no other character, so cutting the bytes of a text gives the bytes of its lines.
Both cuts are one function, `linesBy`, and have the same laws: up to the first line feed there is
one line, and the others follow.

* `linesBy`, `induction_on_lines` --- cutting a list behind each member of a kind;
* `Text.lines_encode` --- the lines of bytes and of characters;
* `Token.onFirstLine`, `Lexer.onFirstLine_of_mem_tokenize` --- tokens without their line;
* `Lexer.flatten_map_tokenize_lines` --- the tokens of the lines of a text;
* `Session.run_eq_tokenize` --- a session over a text.
-/

namespace CircuitText

/-! ## Cutting into lines -/

section Lines

variable {α β : Type} [DecidableEq α] [DecidableEq β]

/-- Cuts a list behind each `feed`; the last line may lack one. -/
def linesBy (feed : α) : List α → List (List α)
  | [] => []
  | a :: as =>
    if a = feed then [a] :: linesBy feed as
    else
      match linesBy feed as with
      | [] => [[a]]
      | line :: more => (a :: line) :: more

/-- The lines of a text. -/
def Text.lines (text : List Char) : List (List Char) := linesBy '\n' text

theorem lines_eq_linesBy (bytes : List UInt8) : lines bytes = linesBy 10 bytes := by
  induction bytes with
  | nil => rfl
  | cons b bytes ih =>
    rw [lines, linesBy, ih]
    cases linesBy 10 bytes <;> rfl

variable {feed : α} {front rest : List α}

/-- Up to the first `feed` there is one line, and the lines behind it follow. -/
theorem linesBy_append (h : feed ∉ front) :
    linesBy feed (front ++ feed :: rest) = (front ++ [feed]) :: linesBy feed rest := by
  induction front with
  | nil => simp [linesBy]
  | cons a front ih =>
    obtain ⟨ha, hfront⟩ := List.ne_and_not_mem_of_not_mem_cons h
    rw [List.cons_append, linesBy, if_neg ha.symm, ih hfront]
    rfl

/-- Without a `feed` there is one line. -/
theorem linesBy_of_notMem (hne : front ≠ []) (h : feed ∉ front) : linesBy feed front = [front] := by
  induction front with
  | nil => exact absurd rfl hne
  | cons a front ih =>
    obtain ⟨ha, hfront⟩ := List.ne_and_not_mem_of_not_mem_cons h
    rw [linesBy, if_neg ha.symm]
    cases front with
    | nil => rfl
    | cons b front => rw [ih (List.cons_ne_nil b front) hfront]

/-- What holds of nothing, of a line without a `feed`, and behind a line if it holds of what follows
the line, holds always. -/
theorem induction_on_lines {motive : List α → Prop} (feed : α) (nil : motive [])
    (last : ∀ front, front ≠ [] → feed ∉ front → motive front)
    (line : ∀ front rest, feed ∉ front → motive rest → motive (front ++ feed :: rest))
    (as : List α) : motive as := by
  induction hn : as.length using Nat.strongRecOn generalizing as with
  | ind n ih =>
    by_cases hfeed : feed ∈ as
    · obtain ⟨front, rest, rfl, hfront⟩ := List.eq_append_cons_of_mem hfeed
      refine line front rest hfront (ih rest.length ?_ rest rfl)
      rw [← hn, List.length_append, List.length_cons]
      omega
    · cases as with
      | nil => exact nil
      | cons a as => exact last _ (List.cons_ne_nil a as) hfeed

/-- Cutting commutes with a code in which `feed'` stands for `feed` and is in no other word. -/
theorem linesBy_flatMap {feed' : β} {code : α → List β} (hfeed : code feed = [feed'])
    (hother : ∀ a, a ≠ feed → code a ≠ [] ∧ feed' ∉ code a) (as : List α) :
    linesBy feed' (as.flatMap code) = (linesBy feed as).map (·.flatMap code) := by
  have hnone : ∀ front : List α, feed ∉ front → feed' ∉ front.flatMap code := by
    intro front hfront hmem
    obtain ⟨a, ha, hmem⟩ := List.mem_flatMap.mp hmem
    exact (hother a fun heq => hfront (heq ▸ ha)).2 hmem
  induction as using induction_on_lines feed with
  | nil => rfl
  | last front hne hfront =>
    have hcode : front.flatMap code ≠ [] := by
      obtain ⟨a, front, rfl⟩ := List.exists_cons_of_ne_nil hne
      have ha := (hother a (List.ne_and_not_mem_of_not_mem_cons hfront).1.symm).1
      simp [ha]
    rw [linesBy_of_notMem hne hfront, linesBy_of_notMem hcode (hnone front hfront)]
    rfl
  | line front rest hfront ih =>
    rw [linesBy_append hfront, List.flatMap_append, List.flatMap_cons, hfeed,
      List.singleton_append, linesBy_append (hnone front hfront), ih, List.map_cons,
      List.flatMap_append, List.flatMap_singleton, hfeed]

end Lines

/-! ## The bytes of a text -/

namespace Text

theorem encode_eq_flatMap (text : String) :
    encode text = text.toList.flatMap String.utf8EncodeChar := by
  rw [encode, ← String.ofList_toList (s := text), String.toByteArray_ofList, List.utf8Encode,
    List.data_toByteArray, String.toList_ofList]

/-- No byte of another character is a line feed. -/
theorem lineFeed_notMem_utf8EncodeChar {c : Char} (hc : c ≠ '\n') :
    (10 : UInt8) ∉ String.utf8EncodeChar c := by
  have hvalue : c.val.toNat ≠ 10 := fun h => hc (Char.toNat_inj.mp h)
  have hbyte : ∀ n : Nat, (10 : UInt8) = .ofNat n ↔ 10 = n % 256 := by
    intro n
    rw [← UInt8.toNat_inj, UInt8.toNat_ofNat']
    rfl
  simp only [String.utf8EncodeChar]
  split
  · simp only [List.mem_singleton, hbyte]
    omega
  · split
    · simp only [List.mem_cons, List.not_mem_nil, or_false, hbyte]
      omega
    · split <;> simp only [List.mem_cons, List.not_mem_nil, or_false, hbyte] <;> omega

/-- Cutting the bytes of a text gives the bytes of its lines. -/
theorem lines_encode (text : String) :
    CircuitText.lines (encode text) = ((lines text.toList).map String.ofList).map encode := by
  have hfeed : String.utf8EncodeChar '\n' = [10] := by decide
  have hother : ∀ c, c ≠ '\n' → String.utf8EncodeChar c ≠ [] ∧
      (10 : UInt8) ∉ String.utf8EncodeChar c := fun c hc =>
    ⟨String.utf8EncodeChar_ne_nil, lineFeed_notMem_utf8EncodeChar hc⟩
  rw [lines_eq_linesBy, encode_eq_flatMap, linesBy_flatMap hfeed hother, List.map_map]
  refine List.map_congr_left fun line _ => ?_
  rw [Function.comp_apply, encode_eq_flatMap, String.toList_ofList]

end Text

/-! ## Tokens without their line -/

/-- The place in the same column of the first line. -/
def Position.onFirstLine (p : Position) : Position := { p with line := 1 }

/-- The token with both ends in the first line. -/
def Token.onFirstLine (t : Token) : Token :=
  { t with span := ⟨t.span.first.onFirstLine, t.span.last.onFirstLine⟩ }

/-- The line makes no difference to the columns of what follows. -/
theorem Position.onFirstLine_after {p q : Position} (h : p.onFirstLine = q.onFirstLine)
    (text : List Char) : (p.after text).onFirstLine = (q.after text).onFirstLine := by
  induction text generalizing p q with
  | nil => exact h
  | cons c text ih =>
    refine ih ?_
    simp only [onFirstLine, mk.injEq, true_and] at h
    unfold past onFirstLine
    split <;> simp [h]

theorem Lexeme.onFirstLine_token {p q : Position} (h : p.onFirstLine = q.onFirstLine)
    (x : Lexeme) : (x.token p).onFirstLine = (x.token q).onFirstLine := by
  simp only [token, Token.onFirstLine, Position.ofLast, h,
    Position.onFirstLine_after h x.text.dropLast]

namespace Lexer

/-- Tokens of the same text from places that differ in the line only differ in the lines only. -/
theorem map_onFirstLine_tokensFrom (cs : List Char) : ∀ {p q : Position},
    p.onFirstLine = q.onFirstLine →
      (tokensFrom p cs).map Token.onFirstLine = (tokensFrom q cs).map Token.onFirstLine := by
  fun_induction lexemesOf cs with
  | case1 cs hgap =>
    intro p q _
    rw [tokensFrom_of_gap hgap, tokensFrom_of_gap hgap]
  | case2 cs c rest hgap _ ih =>
    intro p q h
    have hfront := Position.onFirstLine_after h (splitGap false cs).1
    rw [tokensFrom_of_lexeme hgap, tokensFrom_of_lexeme hgap, List.map_cons, List.map_cons,
      Lexeme.onFirstLine_token hfront, ih (Position.onFirstLine_after hfront _)]

end Lexer

/-- Tokens before the first line feed are in the first line. -/
theorem Tiled.onFirstLine {file : String} {before text : List Char} {ts : List Token}
    (h : Tiled file before text ts) (hbefore : '\n' ∉ before) (htext : '\n' ∉ text) :
    ∀ t ∈ ts, t.onFirstLine = t := by
  have hplace : ∀ part : List Char, '\n' ∉ part →
      (Position.behind file part).onFirstLine = .behind file part := by
    intro part hpart
    simp [Position.onFirstLine, Position.behind, List.count_eq_zero_of_not_mem hpart]
  induction h with
  | gap => simp
  | @token before gap lexeme rest t ts hgap ht more ih =>
    simp only [List.mem_append, not_or] at htext ih
    obtain ⟨hgap, hlexeme, hrest⟩ := htext
    refine List.forall_mem_cons.mpr ⟨?_, ih ⟨⟨hbefore, hgap⟩, hlexeme⟩ hrest⟩
    have hlast : '\n' ∉ lexeme.dropLast := fun hmem => hlexeme (List.dropLast_subset _ hmem)
    have hfirst := hplace (before ++ gap) (by simp [hbefore, hgap])
    have hsecond := hplace (before ++ gap ++ lexeme.dropLast) (by simp [hbefore, hgap, hlast])
    rw [← ht.first] at hfirst
    rw [← ht.last] at hsecond
    rw [Token.onFirstLine, hfirst, hsecond]

/-- Behind a line feed a place is the first of its line. -/
theorem Position.onFirstLine_after_line {p : Position} (front : List Char) :
    (p.after (front ++ ['\n'])).onFirstLine = .start p.file := by
  have hpast : ∀ q : Position, (q.past '\n').onFirstLine = .start q.file := fun q => rfl
  rw [after_append, after_cons, after_nil, hpast, file_after]

namespace Lexer

variable {file : String}

/-- The tokens of a line are in the first line. -/
theorem onFirstLine_of_mem_tokenize {line : List Char} (h : '\n' ∉ line) :
    ∀ t ∈ tokenize line file, t.onFirstLine = t :=
  (tiled_tokenize line file).onFirstLine (by simp) h

/-- What stands before a line only moves the line that its tokens are in. -/
theorem map_onFirstLine_tokensFrom_line {front : List Char} {p : Position} (hfront : '\n' ∉ front)
    (hp : p.onFirstLine = origin file) :
    (tokensFrom p (front ++ ['\n'])).map Token.onFirstLine = tokenize front file := by
  rw [map_onFirstLine_tokensFrom _ (q := origin file) hp, ← tokenize_eq_tokensFrom]
  exact (List.map_congr_left (onFirstLine_of_mem_tokenize hfront)).trans (List.map_id _)

theorem flatten_map_tokenize_lines_from (text : List Char)
    (h : ∀ line ∈ Text.lines text, ∀ w ∈ words line file, w.IsSettled) :
    ∀ p : Position, p.onFirstLine = origin file →
      ((Text.lines text).map (tokenize · file)).flatten =
        (tokensFrom p (text ++ ['\n'])).map Token.onFirstLine := by
  induction text using induction_on_lines '\n' with
  | nil =>
    intro p _
    rw [tokensFrom_of_gap rfl]
    rfl
  | last front hne hfront =>
    intro p hp
    rw [map_onFirstLine_tokensFrom_line hfront hp, Text.lines, linesBy_of_notMem hne hfront]
    simp
  | line front rest hfront ih =>
    intro p hp
    rw [Text.lines, linesBy_append hfront] at h ⊢
    obtain ⟨hfirst, hrest⟩ := List.forall_mem_cons.mp h
    have hsettled : ∀ x ∈ lexemesOf (front ++ ['\n']), x.word.IsSettled := by
      rw [words, tokenize_append_lineFeed, ← words, words_eq] at hfirst
      exact List.forall_mem_map.mp hfirst
    have hplace : (p.after (front ++ ['\n'])).onFirstLine = origin file := by
      have hfile : p.file = (origin file).file := by rw [← hp, Position.onFirstLine]
      rw [Position.onFirstLine_after_line, hfile]
      rfl
    have hsplit : front ++ '\n' :: rest ++ ['\n'] = front ++ ['\n'] ++ (rest ++ ['\n']) := by
      simp
    rw [hsplit, tokensFrom_append _ (by simp) fun _ => hsettled, List.map_append,
      map_onFirstLine_tokensFrom_line hfront hp, ← ih hrest _ hplace, List.map_cons,
      List.flatten_cons, tokenize_append_lineFeed]
    rfl

/-- The tokens of the lines of a text, each line lexed by itself, are those of the text, if the
words of every line are settled. -/
theorem flatten_map_tokenize_lines (text : List Char)
    (h : ∀ line ∈ Text.lines text, ∀ w ∈ words line file, w.IsSettled) :
    ((Text.lines text).map (tokenize · file)).flatten =
      (tokenize text file).map Token.onFirstLine :=
  flatten_map_tokenize_lines_from text h (origin file) rfl

end Lexer

/-! ## Sessions over texts -/

namespace Session

/-- The tokens that the lines of a text are answered with. -/
def answers (text : String) : List (List Token) :=
  (Text.lines text.toList).map (Lexer.tokenize · label)

/-- A session over a text writes the tokens of its lines, and these are the tokens of the whole text
but for the line they are in, if no line says `quit` and if no line, lexed by itself, has a quote
that begins no string or a string that ends in a backslash. -/
theorem run_eq_tokenize {text : String}
    (hquit : ∀ line ∈ Text.lines text.toList, Text.trimBlanks line ≠ farewell.toList)
    (hsettled : ∀ line ∈ Text.lines text.toList, ∀ t ∈ Lexer.tokenize line label,
      (t.kind = .illegal → t.literal ≠ "\"" ∧ t.literal ≠ "'") ∧
        (t.kind = .string → t.literal.toList.getLast? ≠ some '\\')) :
    (run (Text.encode text)).Yields (.ok ()) (transcript (answers text)) ∧
      (answers text).flatten = (Lexer.tokenize text.toList label).map Token.onFirstLine := by
  constructor
  · have htexts : ∀ line ∈ (Text.lines text.toList).map String.ofList,
        Text.trimBlanks line.toList ≠ farewell.toList := by
      simpa only [List.forall_mem_map, String.toList_ofList] using hquit
    have hall := yields_answerAll htexts
    rw [← Text.lines_encode, List.map_map] at hall
    simp only [Function.comp_def, String.toList_ofList] at hall
    exact hall
  · refine Lexer.flatten_map_tokenize_lines _ fun line hline => ?_
    refine List.forall_mem_map.mpr fun t ht => ?_
    obtain ⟨hillegal, hstring⟩ := hsettled line hline t ht
    exact ⟨hillegal, hstring⟩

/-- Three lines with a quote in a comment, a hash in a string, a character of two bytes and a blank
in front of a number. -/
theorem run_eq_tokenize_three_lines :
    let text := "a->b # 'c\n\t'#' é \"\\\"\"\n -2"
    let written := "booleang> [repl 1:1-1:1] identifier `a`\n[repl 1:2-1:3] -> `->`\n" ++
      "[repl 1:4-1:4] identifier `b`\nbooleang> [repl 1:2-1:4] string `#`\n" ++
      "[repl 1:6-1:6] identifier `é`\n[repl 1:8-1:11] string `\"`\n" ++
      "booleang> [repl 1:2-1:3] number `-2`\nbooleang> "
    (∀ line ∈ Text.lines text.toList, Text.trimBlanks line ≠ farewell.toList) ∧
      (∀ line ∈ Text.lines text.toList, ∀ t ∈ Lexer.tokenize line label,
        (t.kind = .illegal → t.literal ≠ "\"" ∧ t.literal ≠ "'") ∧
          (t.kind = .string → t.literal.toList.getLast? ≠ some '\\')) ∧
      transcript (answers text) = Text.encode written ∧
      (run (Text.encode text)).Yields (.ok ()) (transcript (answers text)) ∧
      (answers text).flatten = (Lexer.tokenize text.toList label).map Token.onFirstLine := by
  intro text written
  have hquit : ∀ line ∈ Text.lines text.toList, Text.trimBlanks line ≠ farewell.toList := by
    decide +kernel
  have hsettled : ∀ line ∈ Text.lines text.toList, ∀ t ∈ Lexer.tokenize line label,
      (t.kind = .illegal → t.literal ≠ "\"" ∧ t.literal ≠ "'") ∧
        (t.kind = .string → t.literal.toList.getLast? ≠ some '\\') := by decide +kernel
  have hwritten : transcript (answers text) = Text.encode written := by decide +kernel
  exact ⟨hquit, hsettled, hwritten, run_eq_tokenize hquit hsettled⟩

end Session
end CircuitText
