import CircuitText.Proofs.Lexing.Tiling

/-!
# Pulling tokens

A lexer can be asked for a token, which is an end token when nothing is left; for the next token if
there is one; and for all that are left, one after the other, up to the first time that there is
none.  The second way notices the end and gives nothing from then on, the first does not notice it.
They may be mixed in any order: both move the same lexer on, and neither can see which of the two
took the tokens before.

`Answers last ts as left` says that the answers `as` give the tokens `ts` in order up to those in
`left`, and that once none is left every answer is the end token `last`, or nothing.  Each pull is
answered so, hence each list of pulls.

* `Pull`, `Answer`, `Lexer.answers` --- ways to ask, and what one is told;
* `Answers` --- answers that give the tokens of a list in order;
* `Lexer.Holds`, `Lexer.answers_pull` --- what a lexer holds, and one pull;
* `Lexer.answers_tokenize` --- any pulls on the lexer of a text.
-/

namespace CircuitText

/-- A way to ask a lexer for tokens. -/
inductive Pull where
  /-- For a token, the end token if nothing is left. -/
  | token
  /-- For the next token, if there is one. -/
  | next
  /-- For the next token again and again until there is none. -/
  | rest
  deriving DecidableEq, Repr

/-- What a lexer answers. -/
inductive Answer where
  /-- A token, which may be the end token. -/
  | token (t : Token)
  /-- The next token, if there is one. -/
  | next (found : Option Token)
  deriving DecidableEq, Repr

namespace Answer

/-- The token that is given, unless it is an end token. -/
def token? : Answer → Option Token
  | .token t => if t.kind = .endOfText then none else some t
  | .next none => none
  | .next (some t) => if t.kind = .endOfText then none else some t

/-- Nothing is left, and `last` is the end token. -/
def IsEnd (last : Token) (a : Answer) : Prop := a = .token last ∨ a = .next none

theorem token?_of_isEnd {last : Token} (hlast : last.kind = .endOfText) {a : Answer}
    (h : a.IsEnd last) : a.token? = none := by
  rcases h with rfl | rfl
  · exact if_pos hlast
  · rfl

end Answer

namespace Lexer

/-- The answers to one pull, and the lexer behind them. -/
def pull (l : Lexer) : Pull → List Answer × Lexer
  | .token => ([.token l.nextToken.1], l.nextToken.2)
  | .next => ([.next l.next?.1], l.next?.2)
  | .rest => (l.drain.1.map (fun t => .next (some t)) ++ [.next none], l.drain.2)

/-- The answers to pulls, one after the other. -/
def answers (l : Lexer) : List Pull → List Answer
  | [] => []
  | p :: ps => (l.pull p).1 ++ (l.pull p).2.answers ps

end Lexer

/-! ## Answers in order -/

/-- The answers give the tokens of the first list up to those of the second.  Where none is left
they say so, `last` being the end token. -/
inductive Answers (last : Token) : List Token → List Answer → List Token → Prop
  | nil {ts : List Token} : Answers last ts [] ts
  | token {a : Answer} {t : Token} {ts left : List Token} {as : List Answer}
      (given : a.token? = some t) (more : Answers last ts as left) :
      Answers last (t :: ts) (a :: as) left
  | ended {a : Answer} {left : List Token} {as : List Answer} (ended : a.IsEnd last)
      (more : Answers last [] as left) : Answers last [] (a :: as) left

namespace Answers

variable {last : Token} {ts left more : List Token} {as bs : List Answer}

theorem append (h : Answers last ts as left) (h' : Answers last left bs more) :
    Answers last ts (as ++ bs) more := by
  induction h with
  | nil => exact h'
  | token given _ ih => exact .token given (ih h')
  | ended ended _ ih => exact .ended ended (ih h')

/-- When all tokens are given, what follows says that none is left. -/
theorem isEnd_of_nil (h : Answers last [] as left) : ∀ a ∈ as, a.IsEnd last := by
  generalize hts : ([] : List Token) = ts at h
  induction h with
  | nil => simp
  | token => simp at hts
  | ended ended _ ih => exact List.forall_mem_cons.mpr ⟨ended, ih rfl⟩

/-- The tokens that are given, with those that are left, are all. -/
theorem filterMap_append (hlast : last.kind = .endOfText) (h : Answers last ts as left) :
    as.filterMap (·.token?) ++ left = ts := by
  induction h with
  | nil => rfl
  | token given _ ih => rw [List.filterMap_cons_some given, List.cons_append, ih]
  | ended ended _ ih => rw [List.filterMap_cons_none (Answer.token?_of_isEnd hlast ended), ih]

/-- An answer without a token comes when all tokens have been given. -/
theorem split (hlast : last.kind = .endOfText) {a : Answer}
    (h : Answers last ts (as ++ a :: bs) left) (ha : a.token? = none) :
    as.filterMap (·.token?) = ts ∧ ∀ b ∈ a :: bs, b.IsEnd last := by
  induction as generalizing ts with
  | nil =>
    cases h with
    | token given => simp [ha] at given
    | ended ended more => exact ⟨rfl, List.forall_mem_cons.mpr ⟨ended, more.isEnd_of_nil⟩⟩
  | cons b as ih =>
    cases h with
    | token given more =>
      obtain ⟨htokens, hend⟩ := ih more
      exact ⟨by rw [List.filterMap_cons_some given, htokens], hend⟩
    | ended ended more =>
      obtain ⟨htokens, hend⟩ := ih more
      exact ⟨by rw [List.filterMap_cons_none (Answer.token?_of_isEnd hlast ended), htokens], hend⟩

end Answers

namespace Lexer

variable {l : Lexer} {finish : Position} {ts : List Token}

/-! ## What a lexer holds -/

/-- The lexer holds these tokens, and the end token behind them stands at `finish`.  Whether the end
has been noticed matters only while there are tokens. -/
inductive Holds (finish : Position) : Lexer → List Token → Prop
  | nil {l : Lexer} (hgap : l.skipGap.rest = []) (hplace : l.skipGap.place = finish) :
      Holds finish l []
  | cons {l : Lexer} {c : Char} {cs : List Char} {ts : List Token} (hended : l.ended = false)
      (hgap : l.skipGap.rest = c :: cs) (more : Holds finish (l.skipGap.behind c cs) ts) :
      Holds finish l (l.skipGap.token c cs :: ts)

/-- A lexer that has not ended holds what draining it gives, and ends behind its text. -/
theorem holds_drain (hended : l.ended = false) :
    Holds (l.place.after l.rest) l l.drain.1 := by
  refine induction_on_lexemes (motive := fun l => Holds (l.place.after l.rest) l l.drain.1)
    (fun l hended hgap => ?_) (fun l c cs hended hgap ih => ?_) l hended
  · obtain ⟨gap, hrest, -, hplace, -⟩ := l.exists_gap_of_skipGap
    rw [hgap, List.append_nil] at hrest
    rw [drain_of_gap hended hgap]
    exact .nil hgap (by rw [hplace, hrest])
  · obtain ⟨gap, hrest, -, hplace, -⟩ := l.exists_gap_of_skipGap
    obtain ⟨next, hlexeme, -, hbehind⟩ := l.skipGap.exists_gap_of_behind c cs
    have hfinish : l.place.after l.rest =
        (l.skipGap.behind c cs).place.after (l.skipGap.behind c cs).rest := by
      rw [hrest, hgap, hlexeme, hbehind, hplace]
      simp only [Position.after_append]
    rw [drain_of_lexeme hended hgap, hfinish]
    exact .cons hended hgap ih

/-- A lexer at its end goes on holding nothing. -/
theorem Holds.skipGap (h : Holds finish l []) (ended : Bool) :
    Holds finish { l.skipGap with ended } [] := by
  cases h with
  | nil hgap hplace =>
    have hrest : ({ l.skipGap with ended } : Lexer).skipGap = { l.skipGap with ended } := by
      rw [Lexer.skipGap, hgap]
      simp [pass, splitGap, hgap]
    exact .nil (by rw [hrest]; exact hgap) (by rw [hrest]; exact hplace)

theorem Holds.nextToken_nil (h : Holds finish l []) :
    l.nextToken = (.endOfText finish, l.skipGap) := by
  cases h with
  | nil hgap hplace => rw [nextToken_of_gap hgap, hplace]

theorem Holds.next?_nil (h : Holds finish l []) :
    l.next?.1 = none ∧ Holds finish l.next?.2 [] := by
  by_cases hended : l.ended = true
  · rw [next?, if_pos hended]
    exact ⟨rfl, h⟩
  · rw [next?, if_neg hended, h.nextToken_nil]
    exact ⟨rfl, h.skipGap true⟩

/-! ## Pulls -/

/-- All that is left, pulled one after the other. -/
theorem answers_drain (h : Holds finish l ts) :
    Answers (.endOfText finish) ts (l.pull .rest).1 [] ∧ Holds finish (l.pull .rest).2 [] := by
  induction h with
  | @nil l hgap hplace =>
    obtain ⟨hnone, hmore⟩ := Holds.next?_nil (.nil hgap hplace)
    have hdrain := drain_of_next?_eq_none (Prod.ext (y := (none, _)) hnone rfl)
    simp only [pull, hdrain]
    exact ⟨.ended (.inr rfl) .nil, hmore⟩
  | @cons l c cs ts hended hgap more ih =>
    have hdrain := drain_of_next?_eq_some (next?_of_lexeme hended hgap)
    simp only [pull, hdrain] at ih ⊢
    exact ⟨.token (if_neg (Lexeme.kind_read_ne_endOfText c cs)) ih.1, ih.2⟩

/-- Whatever a lexer is asked, it gives the tokens that it holds in order. -/
theorem answers_pull (h : Holds finish l ts) (p : Pull) :
    ∃ left, Answers (.endOfText finish) ts (l.pull p).1 left ∧ Holds finish (l.pull p).2 left := by
  cases p with
  | rest => exact ⟨[], answers_drain h⟩
  | token =>
    cases h with
    | nil hgap hplace =>
      have hnil : Holds finish l [] := .nil hgap hplace
      simp only [pull, hnil.nextToken_nil]
      exact ⟨[], .ended (.inl rfl) .nil, hnil.skipGap _⟩
    | @cons _ c cs ts hended hgap more =>
      simp only [pull, nextToken_of_lexeme hgap]
      exact ⟨ts, .token (if_neg (Lexeme.kind_read_ne_endOfText c cs)) .nil, more⟩
  | next =>
    cases h with
    | nil hgap hplace =>
      obtain ⟨hnone, hmore⟩ := Holds.next?_nil (.nil hgap hplace)
      simp only [pull, hnone]
      exact ⟨[], .ended (.inr rfl) .nil, hmore⟩
    | @cons _ c cs ts hended hgap more =>
      simp only [pull, next?_of_lexeme hended hgap]
      exact ⟨ts, .token (if_neg (Lexeme.kind_read_ne_endOfText c cs)) .nil, more⟩

/-- And so it does however often it is asked. -/
theorem exists_answers (h : Holds finish l ts) (ps : List Pull) :
    ∃ left, Answers (.endOfText finish) ts (l.answers ps) left := by
  induction ps generalizing l ts with
  | nil => exact ⟨ts, .nil⟩
  | cons p ps ih =>
    obtain ⟨left, hanswers, hholds⟩ := answers_pull h p
    obtain ⟨more, hmore⟩ := ih hholds
    exact ⟨more, hanswers.append hmore⟩

/-- The end of a text stands at the beginning of the line behind the one that ends the text. -/
theorem place_after_ofText (text : List Char) (file : String) :
    (ofText text file).place.after (ofText text file).rest =
      ⟨if file = "" then anonymous else file, text.count '\n' + 2, 1⟩ := by
  show (Position.behind _ []).after (text ++ ['\n']) = _
  rw [Position.after_behind, List.nil_append, Position.behind]
  simp
  omega

/-- The end token stands behind the text. -/
theorem stream_eq (hended : l.ended = false) :
    l.stream = l.drain.1 ++ [.endOfText (l.place.after l.rest)] := by
  have hend : Holds (l.place.after l.rest) l.drain.2 [] := (answers_drain (holds_drain hended)).2
  rw [stream, hend.nextToken_nil]

/-- The tokens of a text and its end token follow each other without meeting. -/
theorem ordered_stream (text : List Char) (file : String) :
    (∀ t ∈ (ofText text file).stream,
        t.span.first = t.span.last ∨ t.span.first.Before t.span.last) ∧
      (ofText text file).stream.Pairwise fun t u => t.span.last.Before u.span.first := by
  have htiled := tiled_drain (ofText text file) rfl [] [] rfl .nil
  obtain ⟨hspans, hpairwise⟩ := htiled.ordered
  rw [stream_eq rfl]
  refine ⟨List.forall_mem_append.mpr ⟨hspans, by simp [Token.endOfText, Span.point]⟩,
    List.pairwise_append.mpr ⟨hpairwise, List.pairwise_singleton .., fun t ht u hu => ?_⟩⟩
  rw [List.mem_singleton.mp hu]
  have hplace : (ofText text file).place = .behind _ [] := rfl
  have hlast := htiled.last_before_end t ht
  rw [List.nil_append, ← Position.after_behind, ← hplace] at hlast
  exact hlast

/-- No two tokens of a text stand in the same place. -/
theorem nodup_span_stream (text : List Char) (file : String) :
    ((ofText text file).stream.map (·.span)).Nodup := by
  obtain ⟨hspans, hpairwise⟩ := ordered_stream text file
  refine List.pairwise_map.mpr (hpairwise.imp_of_mem fun {t u} ht _ hbefore heq => ?_)
  rw [← heq] at hbefore
  rcases hspans t ht with h | h
  · rw [h] at hbefore
    unfold Position.Before at hbefore
    omega
  · have := h.trans hbefore
    unfold Position.Before at this
    omega

/-- However the tokens of a text are pulled, they come in order, each of them once.  Before an
answer that says that none is left all have been given, and from then on there is always the same
end token, on the line behind the last one, and there is never a next token. -/
theorem answers_tokenize (text : List Char) (file : String) (ps : List Pull) :
    let given := ((ofText text file).answers ps).filterMap (·.token?)
    let last := Token.endOfText
      ⟨if file = "" then anonymous else file, text.count '\n' + 2, 1⟩
    given <+: tokenize text file ∧
      ∀ front a back, (ofText text file).answers ps = front ++ a :: back → a.token? = none →
        front.filterMap (·.token?) = tokenize text file ∧
          ∀ b ∈ a :: back, b = .token last ∨ b = .next none := by
  intro given last
  have hholds : Holds _ (ofText text file) (tokenize text file) := holds_drain rfl
  obtain ⟨left, hanswers⟩ := exists_answers hholds ps
  rw [place_after_ofText] at hanswers
  refine ⟨⟨left, hanswers.filterMap_append rfl⟩, fun front a back hsplit ha => ?_⟩
  rw [hsplit] at hanswers
  exact hanswers.split rfl ha

/-- All three ways mixed: asked for a token twice and drained in between, the lexer has given the
end token, and goes on to say that none is left. -/
theorem answers_tokenize_mixed :
    let text := "a # b\nc;".toList
    let last := Token.endOfText ⟨"here", 3, 1⟩
    let answers := (ofText text "here").answers [.token, .rest, .token, .next, .rest, .token]
    answers = answers.take 4 ++ .token last :: [.next none, .next none, .token last] ∧
      (answers.take 4).filterMap (·.token?) = tokenize text "here" ∧
        ∀ b ∈ [.token last, .next none, .next none, .token last],
          b = Answer.token last ∨ b = .next none := by
  intro text last answers
  have hsplit : answers = answers.take 4 ++ .token last :: [.next none, .next none, .token last] :=
    by decide +kernel
  exact ⟨hsplit, (answers_tokenize text "here" _).2 _ _ _ hsplit rfl⟩

end Lexer
end CircuitText
