import CircuitText.Proofs.Lexing.Tiling
import CircuitText.Proofs.Parsing.Phrase

/-!
# The lexemes of a text

Which tokens a text has depends on its lexemes only, and these are found by passing over a gap and
reading a lexeme, again and again.  The lexer passes over a gap in two parts, and where the first
part ends makes no difference, since what is left behind a whole gap is always the same.

The lexeme of a token can also be found from the outside: it is what the span of the token covers in
the text.

* `splitGap_append_of_isGap`, `Lexer.skipGap_append_of_isGap` --- a gap in front makes no
  difference;
* `lexemesOf` --- the lexemes of a text;
* `Span.cut` --- what a span covers;
* `Lexer.words_drain`, `Lexer.map_cut_tokenize` --- tokens and lexemes;
* `Word.IsSpelled` --- what is known of the words of a text.
-/

namespace CircuitText

/-! ## Passing over gaps -/

theorem isBlank_ne_hash {c : Char} (h : Text.isBlank c = true) : c ≠ '#' := by
  rintro rfl
  exact absurd h (by decide)

section Gaps

variable {gap rest : List Char}

/-- A comment is passed over up to the end of its line. -/
theorem splitGap_comment {comment : List Char} (h : '\n' ∉ comment) (hends : EndsLine rest) :
    (splitGap true (comment ++ rest)).2 = (splitGap false rest).2 := by
  induction comment with
  | nil =>
    cases rest with
    | nil => rfl
    | cons c rest =>
      obtain rfl : c = '\n' := hends c rfl
      simp [splitGap]
  | cons c comment ih =>
    obtain ⟨hc, hcomment⟩ := List.ne_and_not_mem_of_not_mem_cons h
    have hflag : (true && c != '\n' || c == '#') = true := by simp [Ne.symm hc]
    rw [← ih hcomment]
    simp only [List.cons_append, splitGap, hflag, Bool.true_or, if_true]

/-- A gap in front of a text makes no difference to what is left behind all gaps. -/
theorem splitGap_append_of_isGap (h : IsGap gap rest) :
    (splitGap false (gap ++ rest)).2 = (splitGap false rest).2 := by
  induction h with
  | nil => rfl
  | blank hblank more ih =>
    have hhash := beq_eq_false_iff_ne.mpr (isBlank_ne_hash hblank)
    rw [← ih]
    simp [splitGap, hblank, hhash]
  | @comment comment gap rest hcomment hends more ih =>
    rw [← ih, List.cons_append, List.append_assoc, ← splitGap_comment hcomment hends]
    simp [splitGap]

/-- A lexer in front of a gap goes on as one that stands behind it. -/
theorem Lexer.skipGap_append_of_isGap (h : IsGap gap rest) (p : Position) (ended : Bool) :
    (Lexer.mk (gap ++ rest) p ended).skipGap = (Lexer.mk rest (p.after gap) ended).skipGap := by
  have hrest := splitGap_append_of_isGap h
  have hgap : (splitGap false (gap ++ rest)).1 = gap ++ (splitGap false rest).1 := by
    have hsplit := append_splitGap false (gap ++ rest)
    rw [hrest] at hsplit
    refine List.append_cancel_right (hsplit.trans ?_)
    rw [List.append_assoc, append_splitGap]
  simp only [skipGap, pass, hrest, hgap, Position.after_append]

/-- What is passed over behind a token is part of the gap in front of the next one. -/
theorem splitGap_splitTrailing (cs : List Char) :
    (splitGap false (splitTrailing cs).2).2 = (splitGap false cs).2 := by
  have h := splitGap_append_of_isGap (isGap_splitTrailing cs)
  rw [append_splitTrailing] at h
  exact h.symm

end Gaps

/-! ## Lexemes, one after the other -/

/-- What a lexeme says. -/
def Lexeme.word (x : Lexeme) : Word := ⟨x.kind, String.ofList x.literal⟩

/-- The lexemes of a text. -/
def lexemesOf (cs : List Char) : List Lexeme :=
  match h : (splitGap false cs).2 with
  | [] => []
  | c :: rest =>
    have _shorter : (Lexeme.read c rest).rest.length < cs.length := by
      have hread := Lexeme.length_rest_readBy_lt lexemes c rest
      have hgap := congrArg List.length (append_splitGap false cs)
      rw [h, List.length_append] at hgap
      exact Nat.lt_of_lt_of_le hread (by omega)
    Lexeme.read c rest :: lexemesOf (Lexeme.read c rest).rest
termination_by cs.length

variable {cs : List Char}

theorem lexemesOf_of_gap (h : (splitGap false cs).2 = []) : lexemesOf cs = [] := by
  rw [lexemesOf]
  split
  · rfl
  · rename_i c rest h'
    simp [h] at h'

theorem lexemesOf_of_lexeme {c : Char} {rest : List Char}
    (h : (splitGap false cs).2 = c :: rest) :
    lexemesOf cs = Lexeme.read c rest :: lexemesOf (Lexeme.read c rest).rest := by
  rw [lexemesOf]
  split
  · rename_i h'
    simp [h] at h'
  · rename_i c' rest' h'
    rw [h] at h'
    obtain ⟨rfl, rfl⟩ := List.cons.inj h'
    rfl

/-- Only what is left behind the first gap matters. -/
theorem lexemesOf_congr {ds : List Char} (h : (splitGap false cs).2 = (splitGap false ds).2) :
    lexemesOf cs = lexemesOf ds := by
  cases hds : (splitGap false ds).2 with
  | nil => rw [lexemesOf_of_gap hds, lexemesOf_of_gap (h.trans hds)]
  | cons c rest => rw [lexemesOf_of_lexeme hds, lexemesOf_of_lexeme (h.trans hds)]

/-! ## What a span covers -/

instance (p q : Position) : Decidable (p.Before q) := inferInstanceAs (Decidable (_ ∨ _))

theorem Position.Before.asymm {p q : Position} (h : p.Before q) : ¬ q.Before p := by
  unfold Position.Before at *
  omega

/-- A place is not before one that it comes behind. -/
theorem Position.not_after_before (p : Position) (text : List Char) :
    ¬ (p.after text).Before p := by
  by_cases h : text = []
  · rw [h, Position.after_nil]
    unfold Position.Before
    omega
  · exact (Position.before_after p h).asymm

namespace Span

/-- The characters that a span covers in a text that starts at `p`. -/
def cutFrom (s : Span) (p : Position) : List Char → List Char
  | [] => []
  | c :: cs =>
    if ¬ p.Before s.first ∧ ¬ s.last.Before p then c :: s.cutFrom (p.past c) cs
    else s.cutFrom (p.past c) cs

/-- The characters that a span covers in a text. -/
def cut (s : Span) (text : List Char) : List Char := s.cutFrom (.start s.first.file) text

variable {s : Span} {p : Position}

theorem cutFrom_append (first second : List Char) :
    s.cutFrom p (first ++ second) = s.cutFrom p first ++ s.cutFrom (p.after first) second := by
  induction first generalizing p with
  | nil => rfl
  | cons c first ih =>
    rw [List.cons_append, cutFrom, cutFrom, ih, Position.after_cons]
    split <;> simp

/-- A span covers nothing that stands before it. -/
theorem cutFrom_before {text : List Char} (h : s.first = p.after text) : s.cutFrom p text = [] := by
  induction text generalizing p with
  | nil => rfl
  | cons c text ih =>
    have hbefore : p.Before s.first := by
      rw [h]
      exact Position.before_after p (List.cons_ne_nil c text)
    rw [cutFrom, if_neg fun hc => hc.1 hbefore]
    exact ih h

/-- A span covers everything between its two ends. -/
theorem cutFrom_between {text : List Char} (hfirst : ¬ p.Before s.first)
    (hlast : s.last = p.after text.dropLast) : s.cutFrom p text = text := by
  induction text generalizing p with
  | nil => rfl
  | cons c text ih =>
    have hc : ¬ s.last.Before p := by
      rw [hlast]
      exact p.not_after_before _
    rw [cutFrom, if_pos ⟨hfirst, hc⟩]
    cases text with
    | nil => rfl
    | cons d text =>
      rw [ih (fun h => hfirst ((Position.before_past p c).trans h)) hlast]

/-- A span covers nothing that stands behind it. -/
theorem cutFrom_behind {text : List Char} (h : s.last.Before p) : s.cutFrom p text = [] := by
  induction text generalizing p with
  | nil => rfl
  | cons c text ih =>
    rw [cutFrom, if_neg fun hc => hc.2 h]
    exact ih (h.trans (Position.before_past p c))

/-- A span covers the stretch of text whose first and last character it names. -/
theorem cut_of_append {file : String} {before lexeme rest : List Char} (hne : lexeme ≠ [])
    (hfirst : s.first = .behind file before)
    (hlast : s.last = .behind file (before ++ lexeme.dropLast)) :
    s.cut (before ++ (lexeme ++ rest)) = lexeme := by
  have hstart : Position.start s.first.file = .behind file [] := by rw [hfirst]; rfl
  have hpast : s.last.Before (.behind file (before ++ lexeme)) := by
    rw [hlast, ← List.dropLast_concat_getLast hne, ← List.append_assoc, List.dropLast_concat]
    exact Position.behind_before_behind _ (List.cons_ne_nil _ _)
  rw [cut, hstart, cutFrom_append, cutFrom_append, Position.after_behind, Position.after_behind,
    List.nil_append, cutFrom_before (by rw [Position.after_behind, hfirst, List.nil_append]),
    cutFrom_behind hpast, List.nil_append, List.append_nil]
  refine cutFrom_between ?_ (by rw [Position.after_behind, hlast])
  rw [hfirst]
  exact Position.not_after_before _ []

end Span

/-! ## Tokens and lexemes -/

namespace Lexer

variable {l : Lexer}

/-- Behind a lexeme the lexer finds the lexemes of what follows it. -/
theorem lexemesOf_behind (l : Lexer) (c : Char) (cs : List Char) :
    lexemesOf (l.behind c cs).rest = lexemesOf (Lexeme.read c cs).rest :=
  lexemesOf_congr (splitGap_splitTrailing _)

/-- Each token says what its lexeme says. -/
theorem words_drain (l : Lexer) (hended : l.ended = false) :
    l.drain.1.map (·.word) = (lexemesOf l.rest).map (·.word) := by
  refine induction_on_lexemes
    (motive := fun l => l.drain.1.map (·.word) = (lexemesOf l.rest).map (·.word))
    (fun l hended hgap => ?_) (fun l c cs hended hgap ih => ?_) l hended
  · rw [drain_of_gap hended hgap, lexemesOf_of_gap hgap]
    rfl
  · rw [drain_of_lexeme hended hgap, lexemesOf_of_lexeme hgap, List.map_cons, List.map_cons, ih,
      lexemesOf_behind]
    rfl

/-- The span of each token covers its lexeme. -/
theorem map_cut_drain {file : String} (whole : List Char) (l : Lexer) (hended : l.ended = false) :
    ∀ before, whole = before ++ l.rest → l.place = .behind file before →
      l.drain.1.map (·.span.cut whole) = (lexemesOf l.rest).map (·.text) := by
  refine induction_on_lexemes (motive := fun l => ∀ before, whole = before ++ l.rest →
    l.place = .behind file before →
      l.drain.1.map (·.span.cut whole) = (lexemesOf l.rest).map (·.text))
    (fun l hended hgap => ?_) (fun l c cs hended hgap ih => ?_) l hended
  · intro before _ _
    rw [drain_of_gap hended hgap, lexemesOf_of_gap hgap]
    rfl
  · intro before hwhole hplace
    obtain ⟨gap, hrest, -, hplace', -⟩ := l.exists_gap_of_skipGap
    obtain ⟨next, hlexeme, -, hplace''⟩ := l.skipGap.exists_gap_of_behind c cs
    rw [hplace, Position.after_behind] at hplace'
    rw [hplace', Position.after_behind, Position.after_behind] at hplace''
    rw [hrest, hgap, hlexeme, ← List.append_assoc] at hwhole
    have hcut : (l.skipGap.token c cs).span.cut whole = (Lexeme.read c cs).text := by
      rw [hwhole]
      refine Span.cut_of_append (Lexeme.text_readBy_ne_nil lexemes c cs) hplace' ?_
      show l.skipGap.place.after _ = _
      rw [hplace', Position.after_behind]
    have hmore := ih (before ++ gap ++ (Lexeme.read c cs).text ++ next)
      (by rw [hwhole]; simp only [List.append_assoc]) hplace''
    rw [drain_of_lexeme hended hgap, lexemesOf_of_lexeme hgap, List.map_cons, List.map_cons, hcut,
      hmore, lexemesOf_behind]

end Lexer

/-- A token covers its lexeme, whatever follows the text. -/
theorem Tiled.cut_append {file : String} {before text more : List Char} {ts : List Token}
    (h : Tiled file before text ts) :
    ∀ t ∈ ts, t.span.cut (before ++ (text ++ more)) = t.span.cut (before ++ text) := by
  induction h with
  | gap => simp
  | @token before gap lexeme rest t ts hgap ht tail ih =>
    refine List.forall_mem_cons.mpr ⟨?_, ?_⟩
    · simp only [← List.append_assoc before, List.append_assoc lexeme, List.append_assoc gap]
      rw [Span.cut_of_append ht.ne_nil ht.first ht.last,
        Span.cut_of_append ht.ne_nil ht.first ht.last]
    · simpa only [List.append_assoc] using ih

namespace Lexer

/-- What the spans of the tokens cover are the lexemes of the text with the line feed behind it. -/
theorem map_cut_tokenize (text : List Char) (file : String) :
    (tokenize text file).map (·.span.cut text) = (lexemesOf (text ++ ['\n'])).map (·.text) := by
  have h : (tokenize text file).map (·.span.cut (text ++ ['\n'])) = _ :=
    map_cut_drain (text ++ ['\n']) (.ofText text file) rfl [] rfl rfl
  refine Eq.trans (List.map_congr_left fun t ht => ?_) h
  exact ((tiled_tokenize text file).cut_append t ht).symm

/-- The words of a text are those of its lexemes. -/
theorem words_eq (text : List Char) (file : String) :
    words text file = (lexemesOf (text ++ ['\n'])).map (·.word) :=
  words_drain (.ofText text file) rfl

end Lexer

/-! ## Spelled words -/

/-- A word that is spelled as the lexemes are. -/
def Word.IsSpelled (w : Word) : Prop := ∃ text, Lexeme.Spells w.kind w.literal.toList text

/-- Each lexeme says a spelled word. -/
theorem isSpelled_of_mem_lexemesOf (cs : List Char) : ∀ x ∈ lexemesOf cs, x.word.IsSpelled := by
  fun_induction lexemesOf cs with
  | case1 cs hgap => simp
  | case2 cs c rest hgap _ ih =>
    refine List.forall_mem_cons.mpr ⟨⟨(Lexeme.read c rest).text, ?_⟩, ih⟩
    rw [Lexeme.word, String.toList_ofList]
    exact Lexeme.spells_read c rest

/-- The words of a text are spelled. -/
theorem Lexer.isSpelled_of_mem_words {text : List Char} {file : String} :
    ∀ w ∈ Lexer.words text file, w.IsSpelled := by
  rw [Lexer.words_eq]
  exact List.forall_mem_map.mpr (isSpelled_of_mem_lexemesOf _)

end CircuitText
