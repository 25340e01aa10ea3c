import CircuitText.Proofs.Lexing.Appending

/-!
# Texts further down

A text that begins at the start of another line has the tokens it has by itself, moved down by so
many lines: a place further down in the same column stays one while the text is read on, and a line
feed takes both places to the first column.  So the tokens of two texts with a line feed between
them are those of the first and, moved down, those of the second.

* `Position.down`, `Token.down` --- so many lines further down;
* `Lexer.tokensFrom_down` --- the tokens of a text that begins further down;
* `Lexer.tokenize_append_line` --- the tokens of two texts.
-/

namespace CircuitText

/-! ## Places further down -/

namespace Position

variable {n : Nat} {p : Position}

/-- The place in the same column, `n` lines further down. -/
def down (n : Nat) (p : Position) : Position := { p with line := p.line + n }

theorem down_past (c : Char) : (p.down n).past c = (p.past c).down n := by
  unfold past down
  split <;> simp only [mk.injEq, true_and, and_true]
  omega

theorem down_after (text : List Char) : (p.down n).after text = (p.after text).down n := by
  induction text generalizing p with
  | nil => rfl
  | cons c text ih => rw [after_cons, down_past, ih, after_cons]

/-- Behind a line feed one is at the start of a line, one further down for each line feed. -/
theorem start_after_line (file : String) (text : List Char) :
    (start file).after (text ++ ['\n']) = (start file).down (1 + text.count '\n') := by
  have hbehind : start file = behind file [] := rfl
  have hlines : (text ++ ['\n']).count '\n' = text.count '\n' + 1 := by simp
  have hcolumn : (text ++ ['\n']).reverse.takeWhile (· != '\n') = [] := by simp
  rw [hbehind, after_behind, List.nil_append]
  simp only [behind, down, hlines, hcolumn, List.length_nil, List.count_nil, List.reverse_nil,
    List.takeWhile_nil, mk.injEq, true_and, and_true]
  omega

end Position

/-- The span `n` lines further down. -/
def Span.down (n : Nat) (s : Span) : Span := ⟨s.first.down n, s.last.down n⟩

/-- The token `n` lines further down. -/
def Token.down (n : Nat) (t : Token) : Token := { t with span := t.span.down n }

theorem Lexeme.token_down (x : Lexeme) (n : Nat) (p : Position) :
    x.token (p.down n) = (x.token p).down n := by
  simp only [token, Token.down, Span.down, Position.ofLast, Position.down_after]

/-! ## Tokens further down -/

namespace Lexer

/-- A text that begins further down has the same tokens further down. -/
theorem tokensFrom_down (n : Nat) (cs : List Char) : ∀ p : Position,
    tokensFrom (p.down n) cs = (tokensFrom p cs).map (·.down n) := by
  fun_induction lexemesOf cs with
  | case1 cs hgap =>
    intro p
    rw [tokensFrom_of_gap hgap, tokensFrom_of_gap hgap, List.map_nil]
  | case2 cs c rest hgap _ ih =>
    intro p
    rw [tokensFrom_of_lexeme hgap, tokensFrom_of_lexeme hgap, List.map_cons, Position.down_after,
      Position.down_after, Lexeme.token_down, ih]

/-- If no quote in the first text begins no string, and no string in it ends in a backslash, then
the tokens of two texts with a line feed between them are the tokens of the first, and behind them
those of the second, which are further down by that line feed and those in the first text. -/
theorem tokenize_append_line {first : List Char} {file : String}
    (h : ∀ t ∈ tokenize first file, (t.kind = .illegal → t.literal ≠ "\"" ∧ t.literal ≠ "'") ∧
      (t.kind = .string → t.literal.toList.getLast? ≠ some '\\')) (second : List Char) :
    tokenize (first ++ '\n' :: second) file =
      tokenize first file ++ (tokenize second file).map (·.down (1 + first.count '\n')) := by
  have hsettled : ∀ x ∈ lexemesOf (first ++ ['\n']), x.word.IsSettled := by
    have hwords : ∀ w ∈ words first file, w.IsSettled :=
      List.forall_mem_map.mpr fun t ht => ⟨(h t ht).1, (h t ht).2⟩
    rw [words_eq] at hwords
    exact List.forall_mem_map.mp hwords
  have hplace : (origin file).after (first ++ ['\n']) =
      (origin file).down (1 + first.count '\n') := Position.start_after_line _ first
  have hsplit : first ++ '\n' :: second ++ ['\n'] = first ++ ['\n'] ++ (second ++ ['\n']) := by
    simp
  rw [tokenize_eq_tokensFrom, hsplit, tokensFrom_append _ (by simp) fun _ => hsettled, hplace,
    tokensFrom_down, ← tokenize_eq_tokensFrom, ← tokenize_eq_tokensFrom]

/-- The first text has a string over two lines and ends in a comment with a quote in it; the second
begins inside what would be a string, and has an illegal quote. -/
theorem tokenize_append_line_quotes :
    let first := "'a\n\\'' -> # \"".toList
    let second := "b\" ¬\n'".toList
    (∀ t ∈ tokenize first "", (t.kind = .illegal → t.literal ≠ "\"" ∧ t.literal ≠ "'") ∧
      (t.kind = .string → t.literal.toList.getLast? ≠ some '\\')) ∧
    first.count '\n' = 1 ∧
    (tokenize second "").map (·.render) = ["[<input> 1:1-1:1] identifier `b`",
      "[<input> 1:2-1:2] illegal `\"`", "[<input> 1:4-1:4] prefix `¬`",
      "[<input> 2:1-2:1] illegal `'`"] ∧
    (tokenize (first ++ '\n' :: second) "").map (·.render) =
      ["[<input> 1:1-2:3] string `a\n'`", "[<input> 2:5-2:6] -> `->`",
        "[<input> 3:1-3:1] identifier `b`", "[<input> 3:2-3:2] illegal `\"`",
        "[<input> 3:4-3:4] prefix `¬`", "[<input> 4:1-4:1] illegal `'`"] ∧
    tokenize (first ++ '\n' :: second) "" =
      tokenize first "" ++ (tokenize second "").map (·.down (1 + first.count '\n')) := by
  intro first second
  have h : ∀ t ∈ tokenize first "", (t.kind = .illegal → t.literal ≠ "\"" ∧ t.literal ≠ "'") ∧
      (t.kind = .string → t.literal.toList.getLast? ≠ some '\\') := by decide +kernel
  exact ⟨h, by decide, by decide +kernel, by decide +kernel, tokenize_append_line h second⟩

end Lexer
end CircuitText
