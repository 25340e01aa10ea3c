import CircuitText.Proofs.Lexing.Drain
import CircuitText.Proofs.Lexing.Gap
import CircuitText.Proofs.Lexing.Spelling

/-!
# Tokens and gaps make up the text

Nothing of a text is lost when its tokens are read: it is their lexemes with gaps before, between
and behind them, and the span of each token is where its lexeme stands.  `Tiled file before text
tokens` says so of the rest `text` of a source text that begins with `before`.  The lexer keeps a
place while it reads; here places are counted from the text alone (`Position.behind`), and the two
agree at every lexeme.

The lexer passes over a gap in two parts and reads a line feed behind the text.  The induction is
therefore about the rest of a text with the part of a gap that has been passed over already, and the
line feed is taken away at the end; no lexeme has it, since none ends with a line feed.

* `Position.behind`, `Position.Before` --- places in a text, and their order;
* `Token.IsReadFrom`, `Tiled` --- a token and its lexeme, tokens and gaps;
* `Lexer.tiled_drain`, `Tiled.of_append_lineFeed` --- the tokens of a lexer;
* `tiled_tokenize`, `Tiled.ordered` --- the tokens of a text, and that their spans do not meet.
-/

namespace CircuitText

/-! ## Places -/

namespace Position

variable {file : String}

/-- The place behind the part `before` of a text: its line is one more than the line feeds in it,
its column one more than the characters since the last of them. -/
def behind (file : String) (before : List Char) : Position :=
  ⟨file, 1 + before.count '\n', 1 + (before.reverse.takeWhile (· != '\n')).length⟩

theorem past_behind (before : List Char) (c : Char) :
    (behind file before).past c = behind file (before ++ [c]) := by
  unfold past behind
  by_cases hc : c = '\n'
  · simp [hc, Nat.add_assoc]
  · simp [hc, Nat.add_assoc]

/-- Counting on from a place counts from the beginning. -/
theorem after_behind (before text : List Char) :
    (behind file before).after text = behind file (before ++ text) := by
  induction text generalizing before with
  | nil => rw [after_nil, List.append_nil]
  | cons c text ih =>
    rw [after_cons, past_behind, ih, List.append_assoc, List.singleton_append]

/-- One place comes before another in the text. -/
def Before (p q : Position) : Prop := p.line < q.line ∨ p.line = q.line ∧ p.column < q.column

theorem Before.trans {p q r : Position} (hpq : p.Before q) (hqr : q.Before r) : p.Before r := by
  unfold Before at *
  omega

theorem before_past (p : Position) (c : Char) : p.Before (p.past c) := by
  unfold Before past
  split
  · exact .inl (Nat.lt_succ_self _)
  · exact .inr ⟨rfl, Nat.lt_succ_self _⟩

theorem before_after {text : List Char} (p : Position) (h : text ≠ []) :
    p.Before (p.after text) := by
  induction text generalizing p with
  | nil => exact absurd rfl h
  | cons c text ih =>
    rw [after_cons]
    by_cases htext : text = []
    · rw [htext, after_nil]
      exact before_past p c
    · exact (before_past p c).trans (ih _ htext)

/-- Behind more of the text means later. -/
theorem behind_before_behind {text : List Char} (before : List Char) (h : text ≠ []) :
    (behind file before).Before (behind file (before ++ text)) := by
  rw [← after_behind]
  exact before_after _ h

end Position

/-! ## Tokens and gaps -/

/-- The token `t` is read from `lexeme`, which stands behind `before`. -/
structure Token.IsReadFrom (file : String) (before lexeme : List Char) (t : Token) : Prop where
  ne_nil : lexeme ≠ []
  /-- The token begins with the first character of the lexeme. -/
  first : t.span.first = .behind file before
  /-- The token ends with the last character of the lexeme. -/
  last : t.span.last = .behind file (before ++ lexeme.dropLast)
  /-- What is no string stands for itself and lies on one line. -/
  plain : t.kind ≠ .string → t.literal.toList = lexeme ∧ '\n' ∉ lexeme
  /-- A string stands between two of the same quotes. -/
  string : t.kind = .string → ∃ quote body, (quote = '"' ∨ quote = '\'') ∧
    lexeme = quote :: (body ++ [quote]) ∧ t.literal.toList = Text.unescape body

/-- Behind `before`, the lexemes of the tokens with gaps before, between and behind them are
`text`. -/
inductive Tiled (file : String) : (before text : List Char) → List Token → Prop
  | gap {before gap : List Char} (hgap : IsGap gap []) : Tiled file before gap []
  | token {before gap lexeme rest : List Char} {t : Token} {ts : List Token}
      (hgap : IsGap gap (lexeme ++ rest)) (ht : t.IsReadFrom file (before ++ gap) lexeme)
      (more : Tiled file (before ++ gap ++ lexeme) rest ts) :
      Tiled file before (gap ++ (lexeme ++ rest)) (t :: ts)

variable {file : String} {before text : List Char} {ts : List Token}

/-! ## The tokens of a lexer -/

namespace Lexer

variable {l : Lexer} {c : Char} {cs : List Char}

/-- What is passed over in front of a lexeme is a gap, and no blank is left in front of it. -/
theorem exists_gap_of_skipGap (l : Lexer) :
    ∃ gap, l.rest = gap ++ l.skipGap.rest ∧ IsGap gap l.skipGap.rest ∧
      l.skipGap.place = l.place.after gap ∧
      ∀ c ∈ l.skipGap.rest.head?, Text.isBlank c = false :=
  ⟨(splitGap false l.rest).1, (append_splitGap false l.rest).symm, isGap_splitGap l.rest, rfl,
    fun c hc => (head_splitGap false l.rest c hc).1⟩

/-- Behind a lexeme a gap is passed over. -/
theorem exists_gap_of_behind (l : Lexer) (c : Char) (cs : List Char) :
    ∃ gap, c :: cs = (Lexeme.read c cs).text ++ (gap ++ (l.behind c cs).rest) ∧
      IsGap gap (l.behind c cs).rest ∧
      (l.behind c cs).place = (l.place.after (Lexeme.read c cs).text).after gap := by
  refine ⟨(splitTrailing (Lexeme.read c cs).rest).1, ?_, isGap_splitTrailing _, rfl⟩
  show _ = _ ++ (_ ++ (splitTrailing (Lexeme.read c cs).rest).2)
  rw [append_splitTrailing]
  exact (Lexeme.append_readBy lexemes c cs).symm

/-- The lexeme at the front makes a token that is read from it. -/
theorem isReadFrom_token (hplace : l.place = .behind file before) (hc : c ≠ '\n') :
    (l.token c cs).IsReadFrom file before (Lexeme.read c cs).text := by
  have hspells := Lexeme.spells_read c cs
  have hsplit := Lexeme.append_readBy lexemes c cs
  have hne := Lexeme.text_readBy_ne_nil lexemes c cs
  refine ⟨hne, hplace, ?_, fun hk => ⟨?_, ?_⟩, fun hk => ?_⟩
  · show l.place.after _ = _
    rw [hplace, Position.after_behind]
  · show (String.ofList (Lexeme.read c cs).literal).toList = _
    rw [String.toList_ofList, hspells.literal_eq hk]
  · refine hspells.lineFeed_notMem hk fun heq => hc ?_
    change (Lexeme.read c cs).text ++ _ = _ at hsplit
    rw [heq] at hsplit
    exact (List.cons.inj hsplit).1.symm
  · change (Lexeme.read c cs).kind = .string at hk
    rw [hk] at hspells
    obtain ⟨quote, body, hquote, htext, hliteral⟩ := hspells.exists_body
    refine ⟨quote, body, hquote, htext, ?_⟩
    show (String.ofList (Lexeme.read c cs).literal).toList = _
    rw [String.toList_ofList, hliteral]

/-- A lexer that stands behind `before` and a part of a gap gives the tokens of the rest. -/
theorem tiled_drain (l : Lexer) (hended : l.ended = false) :
    ∀ before gap, l.place = .behind file (before ++ gap) → IsGap gap l.rest →
      Tiled file before (gap ++ l.rest) l.drain.1 := by
  refine induction_on_lexemes (motive := fun l => ∀ before gap,
    l.place = .behind file (before ++ gap) → IsGap gap l.rest →
      Tiled file before (gap ++ l.rest) l.drain.1)
    (fun l hended hrest => ?_) (fun l c cs hended hrest ih => ?_) l hended
  · intro before gap hplace hgap
    obtain ⟨more, heq, hmore, -, -⟩ := l.exists_gap_of_skipGap
    rw [drain_of_gap hended hrest, heq, hrest, List.append_nil]
    rw [heq, hrest] at hgap
    rw [hrest] at hmore
    exact .gap (hgap.append hmore)
  · intro before gap hplace hgap
    obtain ⟨more, heq, hmore, hplace', hblank⟩ := l.exists_gap_of_skipGap
    obtain ⟨next, hlexeme, hnext, hplace''⟩ := l.skipGap.exists_gap_of_behind c cs
    rw [drain_of_lexeme hended hrest, heq, hrest, hlexeme, ← List.append_assoc]
    rw [heq, hrest] at hgap
    rw [hrest] at hmore hblank
    have hc : c ≠ '\n' := by
      rintro rfl
      exact absurd (hblank '\n' rfl) (by rw [Text.isBlank_lineFeed]; simp)
    rw [hplace, Position.after_behind, List.append_assoc] at hplace'
    rw [hplace', Position.after_behind, Position.after_behind] at hplace''
    refine .token ?_ (isReadFrom_token hplace' hc) (ih _ _ hplace'' hnext)
    rw [← hlexeme]
    exact hgap.append hmore

end Lexer

/-! ## The tokens of a text -/

theorem Token.IsReadFrom.lineFeed_ne_last {lexeme : List Char} {t : Token}
    (h : t.IsReadFrom file before lexeme) : ∀ front, lexeme ≠ front ++ ['\n'] := by
  intro front heq
  by_cases hk : t.kind = .string
  · obtain ⟨quote, body, hquote, hlexeme, -⟩ := h.string hk
    rw [heq, ← List.cons_append] at hlexeme
    have hlast := (List.append_inj' hlexeme rfl).2
    rcases hquote with rfl | rfl <;> simp at hlast
  · exact (h.plain hk).2 (by simp [heq])

/-- The line feed behind a text is no part of a token. -/
theorem Tiled.of_append_lineFeed (h : Tiled file before (text ++ ['\n']) ts) :
    Tiled file before text ts := by
  generalize hall : text ++ ['\n'] = all at h
  induction h generalizing text with
  | gap hgap =>
    subst hall
    exact .gap hgap.of_append_lineFeed
  | @token before gap lexeme rest t ts hgap ht more ih =>
    rcases List.eq_nil_or_concat rest with rfl | ⟨rest, c, rfl⟩
    · rcases List.eq_nil_or_concat lexeme with rfl | ⟨front, c, rfl⟩
      · exact absurd rfl ht.ne_nil
      · rw [List.append_nil, List.concat_eq_append, ← List.append_assoc] at hall
        obtain rfl : '\n' = c := by simpa using (List.append_inj' hall rfl).2
        exact absurd (List.concat_eq_append ..) (ht.lineFeed_ne_last front)
    · rw [List.concat_eq_append] at hall hgap ih
      rw [← List.append_assoc, ← List.append_assoc] at hall
      obtain ⟨rfl, hc⟩ := List.append_inj' hall rfl
      rw [List.append_assoc]
      refine .token (hgap.congr ?_) ht (ih (by rw [hc]))
      cases lexeme with
      | nil => exact absurd rfl ht.ne_nil
      | cons d lexeme => rfl

/-- The tokens of a text and the gaps between them make up the text. -/
theorem tiled_tokenize (text : List Char) (file : String) :
    Tiled (if file = "" then Lexer.anonymous else file) [] text (Lexer.tokenize text file) :=
  (Lexer.tiled_drain (.ofText text file) rfl [] [] rfl .nil).of_append_lineFeed

/-! ## The order of the tokens -/

theorem Token.IsReadFrom.first_le_last {lexeme : List Char} {t : Token}
    (h : t.IsReadFrom file before lexeme) :
    t.span.first = t.span.last ∨ t.span.first.Before t.span.last := by
  rw [h.first, h.last]
  by_cases hfront : lexeme.dropLast = []
  · rw [hfront, List.append_nil]
    exact .inl rfl
  · exact .inr (Position.behind_before_behind before hfront)

/-- Every token begins behind some part of the text. -/
theorem Tiled.exists_first_eq (h : Tiled file before text ts) :
    ∀ t ∈ ts, ∃ part, t.span.first = .behind file (before ++ part) := by
  induction h with
  | gap => simp
  | @token before gap lexeme rest t ts hgap ht more ih =>
    intro u hu
    rcases List.mem_cons.mp hu with rfl | hu
    · exact ⟨gap, ht.first⟩
    · obtain ⟨part, hpart⟩ := ih u hu
      exact ⟨gap ++ lexeme ++ part, by rw [hpart]; simp⟩

/-- No token ends before it begins, and each ends before all that follow begin. -/
theorem Tiled.ordered (h : Tiled file before text ts) :
    (∀ t ∈ ts, t.span.first = t.span.last ∨ t.span.first.Before t.span.last) ∧
      ts.Pairwise fun t u => t.span.last.Before u.span.first := by
  induction h with
  | gap => simp
  | @token before gap lexeme rest t ts hgap ht more ih =>
    refine ⟨List.forall_mem_cons.mpr ⟨ht.first_le_last, ih.1⟩, List.pairwise_cons.mpr ⟨?_, ih.2⟩⟩
    intro u hu
    obtain ⟨part, hpart⟩ := more.exists_first_eq u hu
    -- the last character of the lexeme stands between the two places
    have heq : before ++ gap ++ lexeme ++ part =
        (before ++ gap ++ lexeme.dropLast) ++ lexeme.getLast ht.ne_nil :: part := by
      have hlexeme := List.dropLast_concat_getLast ht.ne_nil
      rw [← List.singleton_append, ← List.append_assoc, List.append_assoc _ _ [_], hlexeme]
    rw [ht.last, hpart, heq]
    exact Position.behind_before_behind _ (List.cons_ne_nil _ _)

/-- Every token ends before the text does. -/
theorem Tiled.last_before_end (h : Tiled file before text ts) :
    ∀ t ∈ ts, t.span.last.Before (.behind file (before ++ text)) := by
  induction h with
  | gap => simp
  | @token before gap lexeme rest t ts hgap ht more ih =>
    rw [← List.append_assoc, ← List.append_assoc]
    refine List.forall_mem_cons.mpr ⟨?_, ih⟩
    have heq : before ++ gap ++ lexeme ++ rest =
        (before ++ gap ++ lexeme.dropLast) ++ lexeme.getLast ht.ne_nil :: rest := by
      have hlexeme := List.dropLast_concat_getLast ht.ne_nil
      rw [← List.singleton_append, ← List.append_assoc, List.append_assoc _ _ [_], hlexeme]
    rw [ht.last, heq]
    exact Position.behind_before_behind _ (List.cons_ne_nil _ _)

/-- Reading the tokens of a text loses nothing: their lexemes and the gaps between them are the
text, the spans are where the lexemes stand, and the tokens follow each other without meeting. -/
theorem Lexer.tokenize_tiles (text : List Char) (file : String) :
    Tiled (if file = "" then Lexer.anonymous else file) [] text (Lexer.tokenize text file) ∧
      (∀ t ∈ Lexer.tokenize text file,
        t.span.first = t.span.last ∨ t.span.first.Before t.span.last) ∧
      (Lexer.tokenize text file).Pairwise fun t u => t.span.last.Before u.span.first :=
  ⟨tiled_tokenize text file, (tiled_tokenize text file).ordered⟩

end CircuitText
