import CircuitText.Proofs.Delays.Exact
import CircuitText.Proofs.Delays.Rendering
import CircuitText.Proofs.Faults.Last

/-!
# Delays are read back

Of the six units that delays are shown in, five can be written, and a number needs no space in front
of its unit.  So what is shown of a delay can be written in its place, unless it is shown in
microseconds.  No number that is shown is too large to be written, because the unit is as large as
it can be.

The texts here have a single clock; reading a delay looks at nothing but its number and its unit.

* `map_word_lexemesOf_render` --- the words of a delay that is shown;
* `clockText`, `words_clockText` --- a text with one clock, and its words;
* `Delay.parse_clockText`, `Delay.parse_clockText_microsecond` --- what becomes of it;
* `Delay.render_exact_and_reads_back` --- showing delays and reading them back.
-/

namespace CircuitText

/-! ## The words of a delay -/

section Words

variable {w : Word} {ws : List Word} {rest : List Char}

/-- A word and the space behind it are read off the front of a text. -/
theorem map_word_lexemesOf_spelling (h : w.IsWritable) (rest : List Char) :
    (lexemesOf (w.spelling ++ ' ' :: rest)).map (·.word) = w :: (lexemesOf rest).map (·.word) := by
  obtain ⟨c, cs, hspelling, hblank, hhash, hread⟩ := Lexeme.read_spelling h rest
  have hspace : (splitGap false (' ' :: rest)).2 = (splitGap false rest).2 :=
    splitGap_append_of_isGap (.blank (by decide) .nil)
  rw [hspelling, List.cons_append, lexemesOf_of_lexeme (by rw [splitGap_of_word hblank hhash]),
    hread, List.map_cons, lexemesOf_congr hspace]
  congr 1
  rw [Lexeme.word, String.ofList_toList]

/-- And so are words with a space after each. -/
theorem map_word_lexemesOf_spaced (h : ∀ w ∈ ws, w.IsWritable) (rest : List Char) :
    (lexemesOf (spaced ws ++ rest)).map (·.word) = ws ++ (lexemesOf rest).map (·.word) := by
  induction ws with
  | nil => rfl
  | cons w ws ih =>
    obtain ⟨hw, hws⟩ := List.forall_mem_cons.mp h
    have hspaced : spaced (w :: ws) ++ rest = w.spelling ++ ' ' :: (spaced ws ++ rest) := by
      simp [spaced]
    rw [hspaced, map_word_lexemesOf_spelling hw, ih hws, List.cons_append]

/-- A number needs no space behind it if a word follows. -/
theorem map_word_lexemesOf_repr (n : Nat) (hstops : Text.Stops Char.isDigit rest)
    (hpoint : rest.head? ≠ some '.') :
    (lexemesOf (n.repr.toList ++ rest)).map (·.word) =
      ⟨.number, n.repr⟩ :: (lexemesOf rest).map (·.word) := by
  obtain ⟨c, cs, htext⟩ := List.exists_cons_of_ne_nil (Text.repr_ne_nil n)
  have hdigits : ∀ d ∈ c :: cs, d.isDigit = true := by
    rw [← htext]
    exact fun d => Text.isDigit_of_mem_repr
  obtain ⟨hc, hcs⟩ := List.forall_mem_cons.mp hdigits
  obtain ⟨hblank, hhash⟩ := Lexeme.isBlank_of_isDigit hc
  rw [htext, List.cons_append, lexemesOf_of_lexeme (by rw [splitGap_of_word hblank hhash]),
    Lexeme.read_number hc hcs hstops hpoint, List.map_cons]
  congr 1
  rw [Lexeme.word, ← htext, String.ofList_toList]

theorem TimeUnit.isName_symbol (u : TimeUnit) : IsName u.symbol.toList := by
  refine ⟨?_, by cases u <;> decide⟩
  cases u with
  | microsecond =>
    have hmicro : startsWord 'µ' = true := by
      rw [startsWord, Text.isLetterOrMark_micro, Bool.true_or]
    exact ⟨_, _, rfl, hmicro, continuesWord_of_all (by decide)⟩
  | _ => exact ⟨_, _, rfl, startsWord_of_ascii (by decide), continuesWord_of_all (by decide)⟩

/-- A delay that is shown is a number and a name. -/
theorem map_word_lexemesOf_render (d : Delay) (rest : List Char) :
    (lexemesOf (d.render.toList ++ ' ' :: rest)).map (·.word) =
      ⟨.number, d.shown.1.repr⟩ :: ⟨.ident, d.shown.2.symbol⟩ ::
        (lexemesOf rest).map (·.word) := by
  have hfirst : ∀ u : TimeUnit, ∀ c ∈ u.symbol.toList.head?, c.isDigit = false ∧ c ≠ '.' := by
    intro u c hc
    cases u <;> exact Option.mem_some_iff.mp hc ▸ by decide
  have hne : ∀ u : TimeUnit, u.symbol.toList ≠ [] := by
    intro u
    cases u <;> decide
  have hhead : (d.shown.2.symbol.toList ++ ' ' :: rest).head? = d.shown.2.symbol.toList.head? := by
    rw [List.head?_append, Option.or_of_isSome]
    simpa using hne d.shown.2
  have hname := map_word_lexemesOf_spelling (.name d.shown.2.isName_symbol) rest
  rw [d.render_eq, String.toList_append, List.append_assoc, map_word_lexemesOf_repr]
  · exact congrArg _ hname
  · intro c hc
    exact (hfirst _ c (hhead ▸ hc)).1
  · rw [hhead]
    exact fun h => (hfirst _ '.' h).2 rfl

end Words

/-! ## A text with one clock -/

/-- A text with a clock whose delay is written so. -/
def clockText (delay : String) : List Char :=
  ("circuit c \x7b clock " ++ delay ++ " \x7b \x7d \x7d ").toList

/-- The program with one clock, which has this delay and does nothing. -/
def clockProgram (d : Delay) : Program :=
  ⟨Program.defaultName, [], [⟨"c", [], [], [.clock d none []]⟩]⟩

/-- The words up to the delay. -/
def wordsBeforeDelay : List Word :=
  [.fixed .circuit, ⟨.ident, "c"⟩, .fixed .leftBrace, .fixed .clock]

/-- The words behind the delay. -/
def wordsBehindDelay : List Word := [.fixed .leftBrace, .fixed .rightBrace, .fixed .rightBrace]

theorem words_clockText (d : Delay) (file : String) :
    Lexer.words (clockText d.render) file =
      wordsBeforeDelay ++ ⟨.number, d.shown.1.repr⟩ :: ⟨.ident, d.shown.2.symbol⟩ ::
        wordsBehindDelay := by
  have hbefore : ∀ w ∈ wordsBeforeDelay, w.IsWritable := by
    simp only [wordsBeforeDelay, List.forall_mem_cons, List.not_mem_nil, false_implies,
      implies_true, and_true]
    have hname : IsName ['c'] :=
      ⟨⟨'c', [], rfl, startsWord_of_ascii (by decide), by simp⟩, by decide⟩
    exact ⟨Word.isWritable_fixed (by decide), .name hname, Word.isWritable_fixed (by decide),
      Word.isWritable_fixed (by decide)⟩
  have hbehind : ∀ w ∈ wordsBehindDelay, w.IsWritable := by
    simp only [wordsBehindDelay, List.forall_mem_cons, List.not_mem_nil, false_implies,
      implies_true, and_true]
    exact ⟨Word.isWritable_fixed (by decide), Word.isWritable_fixed (by decide),
      Word.isWritable_fixed (by decide)⟩
  have htext : clockText d.render ++ ['\n'] = spaced wordsBeforeDelay ++
      (d.render.toList ++ ' ' :: (spaced wordsBehindDelay ++ ['\n'])) := by
    have hfront : "circuit c \x7b clock ".toList = spaced wordsBeforeDelay := by decide
    have hback : " \x7b \x7d \x7d ".toList = ' ' :: spaced wordsBehindDelay := by decide
    simp [clockText, hfront, hback]
  have hend : lexemesOf ['\n'] = [] := lexemesOf_of_gap rfl
  rw [Lexer.words_eq, htext, map_word_lexemesOf_spaced hbefore, map_word_lexemesOf_render,
    map_word_lexemesOf_spaced hbehind, hend, List.map_nil, List.append_nil]

namespace Grammar

/-- A delay that is written in the text is the delay of the clock. -/
theorem isProgram_clock {number unit : String} {d : Delay} (h : d.IsWritten number unit) :
    IsProgram nestingLimit
      (wordsBeforeDelay ++ ⟨.number, number⟩ :: ⟨.ident, unit⟩ :: wordsBehindDelay)
      (clockProgram d) := by
  have hbody : Deeper IsBlock nestingLimit [] [] := by
    refine ⟨nestingLimit - 1, rfl, ?_⟩
    rw [isBlock_eq]
    exact .nil
  have hclock : IsStatement nestingLimit (.fixed .clock :: ⟨.number, number⟩ :: ⟨.ident, unit⟩ ::
      [.fixed .leftBrace, .fixed .rightBrace]) (.clock d none []) :=
    .clock h .none hbody
  have hblock : IsBlock nestingLimit (.fixed .clock :: ⟨.number, number⟩ :: ⟨.ident, unit⟩ ::
      [.fixed .leftBrace, .fixed .rightBrace]) [.clock d none []] := by
    rw [isBlock_eq]
    exact .cons hclock .nil
  exact .mk .none (.cons (.circuit .none hblock) .nil)

/-- A word that is no unit of time is refused where it stands. -/
theorem fails_delay_of_unknown {s : State} {amount : Nat}
    (hamount : Delay.amount s.current.literal.toList = .ok amount) (hk : s.ahead.kind = .ident)
    (hunit : TimeUnit.ofSymbol? s.ahead.literal = none) :
    Fails delay s ⟨.unknownTimeUnit s.ahead.literal, s.ahead.span⟩ := by
  have h := result_delay_of_ok hamount
  rw [if_neg (not_not_intro hk), hunit] at h
  rw [Fails]
  cases hresult : (delay s).result with
  | ok d => simp [hresult, Except.map] at h
  | error f => simpa [hresult, Except.map] using h

/-- A program is refused at the delay of its first clock. -/
theorem fails_program_of_fails_delay {s t : State} {number : String} {f : Fault}
    (hpass : Passes s (wordsBeforeDelay ++ [⟨.number, number⟩]) t) (hfails : Fails delay t f) :
    Fails program s.advance f := by
  simp only [wordsBeforeDelay, Word.fixed, List.cons_append, List.nil_append, ne_eq, reduceCtorEq,
    not_false_eq_true, passes_word, passes_nil] at hpass
  obtain ⟨hcircuit, -, hname, -, hbrace, -, hclock, -, hnumber, -, rfl⟩ := hpass
  have hstatement : Fails (statementOver block) s.advance.advance.advance.advance f := by
    rw [statementOver, fails_current_bind, current_advance, hclock]
    exact fails_expect_bind.mpr (.inr ⟨hnumber, fails_bind.mpr (.inl hfails)⟩)
  have hblock : Fails block s.advance.advance.advance f := by
    rw [block_eq]
    exact fails_bind.mpr (.inl (fails_whileAhead.mpr ⟨by rw [hclock]; rfl, .inl hstatement⟩))
  have hregisters : Reads registers s.advance.advance ([], []) s.advance.advance := by
    simp [registers, hbrace]
  have hcircuitFails : Fails circuit s.advance f :=
    fails_expectName_bind.mpr (.inr ⟨hname, fails_bind.mpr (.inr ⟨_, _, hregisters,
      fails_expect_bind.mpr (.inr ⟨hbrace, fails_bind.mpr (.inl hblock)⟩)⟩)⟩)
  have hitem : Fails item s.advance f := by
    rw [item, fails_current_bind, current_advance, hcircuit]
    exact fails_bind.mpr (.inl hcircuitFails)
  have hprogramName : Reads programName s.advance Program.defaultName s.advance := by
    simp [programName, hcircuit]
  refine fails_bind.mpr (.inr ⟨_, _, hprogramName, fails_bind.mpr (.inl ?_)⟩)
  exact fails_untilEnd.mpr ⟨by simp [hcircuit], .inl hitem⟩

end Grammar

namespace Delay

variable {d : Delay}

/-- What is shown of a delay is read back as that delay. -/
theorem parse_clockText (h : d.WellFormed) (hu : d.shown.2 ≠ .microsecond) (file : String) :
    Program.parse (clockText d.render) file = .ok (clockProgram d) := by
  rw [Program.parse_eq_ok_iff, words_clockText]
  exact Grammar.isProgram_clock (isWritten_shown h hu)

/-- The microsecond is refused, because it is no unit that can be written. -/
theorem parse_clockText_microsecond (h : d.WellFormed) (hu : d.shown.2 = .microsecond)
    (file : String) :
    ∃ span, Program.parse (clockText d.render) file = .error ⟨.unknownTimeUnit "µs", span⟩ := by
  have hwords := words_clockText d file
  rw [hu] at hwords
  have hkinds := Lexer.kind_ne_endOfText_of_mem_drain (l := .ofText (clockText d.render) file) rfl
  have hlegal : ∀ k ∈ Lexer.tokenize (clockText d.render) file, k.kind ≠ .illegal := by
    intro k hk
    have hword : k.word ∈ Lexer.words (clockText d.render) file := List.mem_map_of_mem hk
    rw [hwords] at hword
    have hall : ∀ w ∈ wordsBeforeDelay ++ ⟨.number, d.shown.1.repr⟩ ::
        ⟨.ident, TimeUnit.microsecond.symbol⟩ :: wordsBehindDelay, w.kind ≠ .illegal := by
      simp [wordsBeforeDelay, wordsBehindDelay, Word.fixed]
    exact hall _ hword
  -- Reading gets as far as the number, and the unit behind it is refused.
  have hunread : (Grammar.State.beforeFirst (.ofLexer (.ofText (clockText d.render) file))).unread =
      wordsBeforeDelay ++ [⟨.number, d.shown.1.repr⟩] ++ ⟨.ident, "µs"⟩ :: wordsBehindDelay := by
    rw [Grammar.State.unread_beforeFirst hkinds]
    exact hwords
  obtain ⟨u, hpass, -⟩ := Grammar.passes_unread.mpr hunread.symm
  obtain ⟨t, hfront, hback⟩ := Grammar.passes_append.mp hpass
  obtain ⟨hkind, hliteral, -⟩ := (Grammar.passes_word (by simp)).mp hback
  have hnumber : t.current.literal = d.shown.1.repr := by
    obtain ⟨r, -, hlast⟩ := Grammar.passes_append.mp hfront
    obtain ⟨-, hrepr, rfl⟩ := (Grammar.passes_word (by simp)).mp hlast
    rw [Grammar.current_advance, hrepr]
  have hamount : amount t.current.literal.toList = .ok d.shown.1 := by
    rw [hnumber]
    exact amount_eq_ok_iff.mpr ⟨isAmount_repr _, shown_lt_amountLimit h⟩
  have hfails := Grammar.fails_program_of_fails_delay hfront
    (Grammar.fails_delay_of_unknown hamount hkind (by rw [hliteral]; decide))
  rw [hliteral, ← Grammar.State.start_eq] at hfails
  exact ⟨_, Grammar.parse_eq_error_of_fails hlegal hfails⟩

/-- A delay is shown as a positive multiple, without leading zeros, of the largest unit that divides
it, and zero in seconds; no two delays are shown alike, and those in microseconds are the multiples
of a thousand that are no multiples of a million.  Every other delay that can be written in a text
can be written as it is shown.  A delay that is shown in microseconds was written in nanoseconds,
and what is shown is refused for its unit. -/
theorem render_exact_and_reads_back :
    (∀ d : Delay,
      (d.nanoseconds = 0 → d.render = "0s") ∧
      (d.nanoseconds ≠ 0 → ∃ (n : Nat) (u : TimeUnit), d.render = n.repr ++ u.symbol ∧ 0 < n ∧
        n.repr.toList.head? ≠ some '0' ∧ n * u.size = d.nanoseconds ∧
        ∀ v : TimeUnit, v.size ∣ d.nanoseconds → v.size ≤ u.size) ∧
      ((∃ n : Nat, d.render = n.repr ++ "µs") ↔
        1000 ∣ d.nanoseconds ∧ ¬ 10 ^ 6 ∣ d.nanoseconds)) ∧
    (∀ d d' : Delay, d.render = d'.render → d = d') ∧
    ∀ (d : Delay) (s t : Grammar.State), Grammar.Reads Grammar.delay s d t → ∀ file,
      ((¬ ∃ n : Nat, d.render = n.repr ++ "µs") →
        Program.parse (clockText d.render) file = .ok (clockProgram d)) ∧
      ((∃ n : Nat, d.render = n.repr ++ "µs") → s.ahead.literal = "ns" ∧
        ∃ span,
          Program.parse (clockText d.render) file = .error ⟨.unknownTimeUnit "µs", span⟩) := by
  refine ⟨fun d => ⟨fun hzero => ?_, fun hne => ?_, ?_⟩, fun d d' => eq_of_shown_alike,
    fun d s t hreads file => ?_⟩
  · rw [render, if_pos hzero]
    rfl
  · obtain ⟨hpos, hlargest⟩ := shown_of_ne_zero hne
    exact ⟨_, _, d.render_eq, hpos, Text.head?_repr_ne_zero hpos, d.shown_mul_size, hlargest⟩
  · rw [exists_render_microsecond_iff, shown_eq_microsecond_iff]
  · have hwritten := (Grammar.reads_delay.mp hreads).2.1
    have hwellFormed := wellFormed_of_isWritten hwritten
    rw [exists_render_microsecond_iff]
    refine ⟨fun hu => parse_clockText hwellFormed hu file, fun hu => ⟨?_, ?_⟩⟩
    · exact unit_eq_of_isWritten hwritten (shown_eq_microsecond_iff.mp hu).2
    · exact parse_clockText_microsecond hwellFormed hu file

/-- Two minutes that were written in seconds, and two microseconds. -/
theorem render_exact_and_reads_back_two :
    let start (text : String) := Grammar.State.start (.ofLexer (.ofText text.toList "here"))
    let minutes : Delay := ⟨120 * 10 ^ 9, by decide⟩
    let microseconds : Delay := ⟨2000, by decide⟩
    Grammar.Reads Grammar.delay (start "120 s") minutes (Grammar.delay (start "120 s")).after ∧
      minutes.render = "2m" ∧
      Program.parse (clockText minutes.render) "here" = .ok (clockProgram minutes) ∧
      Grammar.Reads Grammar.delay (start "+2000.0 ns") microseconds
        (Grammar.delay (start "+2000.0 ns")).after ∧
      microseconds.render = "2µs" ∧
      ∃ span, Program.parse (clockText microseconds.render) "here" =
        .error ⟨.unknownTimeUnit "µs", span⟩ := by
  intro start minutes microseconds
  obtain ⟨hexact, -, hback⟩ := render_exact_and_reads_back
  have hminutes : Grammar.Reads Grammar.delay (start "120 s") minutes _ :=
    Grammar.reads_of_toOption (by decide +kernel)
  have hmicroseconds : Grammar.Reads Grammar.delay (start "+2000.0 ns") microseconds _ :=
    Grammar.reads_of_toOption (by decide +kernel)
  have hnot : ¬ ∃ n : Nat, minutes.render = n.repr ++ "µs" := by
    rw [(hexact minutes).2.2]
    decide
  have hshown : microseconds.render = "2µs" := by decide +kernel
  exact ⟨hminutes, by decide +kernel, (hback _ _ _ hminutes "here").1 hnot, hmicroseconds, hshown,
    ((hback _ _ _ hmicroseconds "here").2 ⟨2, hshown⟩).2⟩

end Delay

end CircuitText
