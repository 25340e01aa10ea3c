import CircuitText.Proofs.Session.Lines

/-!
# How sessions end

A session ends at the first line that says `quit` or is not valid UTF-8, and if there is none at the
end of the input.  Up to there every line is answered with its tokens.  What stands behind the line
that ends the session is never looked at: other bytes in its place make no difference, on any sink.

A line has no line feed but the one that ends it.  So its text is one line of text, and its tokens
lie on the first line of the text labelled `repl`.

* `Session.exists_span_of_mem_tokensOf` --- where the tokens of a line stand;
* `lines_flatten_append` --- whole lines, and bytes behind them;
* `Session.answerAll_append_of_not` --- what stands behind the end of a session;
* `Session.run_yields_record` --- a session over any bytes.
-/

namespace CircuitText

/-! ## One line -/

section Lines

variable {α : Type} [DecidableEq α] {feed : α}

/-- A line that is cut again is one line. -/
theorem linesBy_of_mem {as line : List α} (h : line ∈ linesBy feed as) :
    linesBy feed line = [line] := by
  induction as using induction_on_lines feed with
  | nil => simp [linesBy] at h
  | last front hne hfront =>
    rw [linesBy_of_notMem hne hfront, List.mem_singleton] at h
    rw [h, linesBy_of_notMem hne hfront]
  | line front rest hfront ih =>
    rw [linesBy_append hfront, List.mem_cons] at h
    rcases h with rfl | h
    · rw [linesBy_append hfront]
      rfl
    · exact ih h

/-- One line has no `feed` but the one that ends it. -/
theorem exists_front_of_linesBy {as : List α} (h : linesBy feed as = [as]) :
    ∃ front, feed ∉ front ∧ (as = front ∨ as = front ++ [feed]) := by
  induction as using induction_on_lines feed with
  | nil => exact ⟨[], by simp, .inl rfl⟩
  | last front hne hfront => exact ⟨front, hfront, .inl rfl⟩
  | line front rest hfront _ =>
    rw [linesBy_append hfront, List.cons.injEq, List.append_cancel_left_eq, List.cons.injEq] at h
    exact ⟨front, hfront, .inr (by rw [← h.1.2])⟩

/-- The lines before another one end with a `feed`. -/
theorem exists_front_of_linesBy_append {as line : List α} {before behind : List (List α)}
    (h : linesBy feed as = before ++ line :: behind) :
    ∀ l ∈ before, ∃ front, feed ∉ front ∧ l = front ++ [feed] := by
  induction as using induction_on_lines feed generalizing before with
  | nil => simp [linesBy] at h
  | last front hne hfront =>
    rw [linesBy_of_notMem hne hfront] at h
    cases before with
    | nil => simp
    | cons l before => simp at h
  | line front rest hfront ih =>
    rw [linesBy_append hfront] at h
    cases before with
    | nil => simp
    | cons l before =>
      obtain ⟨rfl, hmore⟩ := List.cons.inj h
      exact List.forall_mem_cons.mpr ⟨⟨front, hfront, rfl⟩, ih hmore⟩

/-- Behind whole lines other bytes are cut by themselves. -/
theorem linesBy_flatten_append {ls : List (List α)}
    (h : ∀ l ∈ ls, ∃ front, feed ∉ front ∧ l = front ++ [feed]) (more : List α) :
    linesBy feed (ls.flatten ++ more) = ls ++ linesBy feed more := by
  induction ls with
  | nil => rfl
  | cons l ls ih =>
    obtain ⟨⟨front, hfront, rfl⟩, hls⟩ := List.forall_mem_cons.mp h
    rw [List.flatten_cons, List.append_assoc, List.append_assoc, List.singleton_append,
      linesBy_append hfront, ih hls]
    rfl

end Lines

/-! ## The tokens of a line -/

/-- The tokens of a text carry its label. -/
theorem Tiled.file_eq {file : String} {before text : List Char} {ts : List Token}
    (h : Tiled file before text ts) :
    ∀ t ∈ ts, t.span.first.file = file ∧ t.span.last.file = file := by
  induction h with
  | gap => simp
  | token _ ht _ ih =>
    refine List.forall_mem_cons.mpr ⟨?_, ih⟩
    rw [ht.first, ht.last]
    exact ⟨rfl, rfl⟩

namespace Session

open Writing

variable {line more : List UInt8} {before behind behind' ls : List (List UInt8)}

/-- The text of a line has no line feed but the one that ends it. -/
theorem exists_front_of_decode? {text : String} (h : lines line = [line])
    (hdecode : Text.decode? line = some text) :
    ∃ front, '\n' ∉ front ∧ (text.toList = front ∨ text.toList = front ++ ['\n']) := by
  refine exists_front_of_linesBy ?_
  rw [← Text.encode_of_decode? hdecode, Text.lines_encode, List.map_eq_singleton_iff] at h
  obtain ⟨part, hpart, hencode⟩ := h
  obtain ⟨cs, hcs, rfl⟩ := List.map_eq_singleton_iff.mp hpart
  have htext : some (String.ofList cs) = some text := by
    rw [← Text.decode?_encode, ← Text.decode?_encode text, hencode]
  rw [Text.lines] at hcs
  rw [hcs, ← Option.some.inj htext, String.toList_ofList]

/-- The tokens of a line stand on the first line of what is typed. -/
theorem exists_span_of_mem_tokensOf (h : lines line = [line]) {t : Token}
    (ht : t ∈ tokensOf line) : ∃ i j, t.span = ⟨⟨label, 1, i⟩, ⟨label, 1, j⟩⟩ := by
  unfold tokensOf at ht
  split at ht
  · simp at ht
  · rename_i text hdecode
    have hfile := (tiled_tokenize text.toList label).file_eq t ht
    have hline : t.onFirstLine = t := by
      obtain ⟨front, hfront, htext | htext⟩ := exists_front_of_decode? h hdecode
      · rw [htext] at ht
        exact Lexer.onFirstLine_of_mem_tokenize hfront t ht
      · rw [htext, Lexer.tokenize_append_lineFeed] at ht
        exact Lexer.onFirstLine_of_mem_tokenize hfront t ht
    refine ⟨t.span.first.column, t.span.last.column, ?_⟩
    rw [← hline]
    simp [Token.onFirstLine, Position.onFirstLine, hfile, label]

/-! ## Behind the end -/

/-- Behind a line that ends the session it does not go on. -/
theorem answer_bind_of_not (h : goesOn line = false) (f : Bool → Writing Unit) :
    answer line >>= f = answer line >>= fun _ => f false := by
  cases hdecode : Text.decode? line with
  | none =>
    simp only [answer, hdecode]
    rfl
  | some text =>
    have htext : Text.trimBlanks text.toList = farewell.toList := by
      simpa [goesOn, hdecode] using h
    simp only [answer, hdecode, if_pos htext, bind_assoc, pure_bind]

/-- What stands behind a line that ends the session makes no difference. -/
theorem answerAll_append_of_not (h : goesOn line = false) (behind behind' : List (List UInt8)) :
    answerAll (before ++ line :: behind) = answerAll (before ++ line :: behind') := by
  induction before with
  | nil =>
    have hend : ∀ w : Writing Unit,
        (do if ← answer line then w) = answer line >>= fun _ => pure () :=
      fun w => answer_bind_of_not h fun b => if b then w else pure ()
    simp only [List.nil_append, answerAll, hend]
  | cons first before ih => simp only [List.cons_append, answerAll, ih]

/-- The lines that are answered stand before the one that ends the session, which is not. -/
theorem exists_behind_of_ending? (h : ending? ls = some line) :
    goesOn line = false ∧ ∃ behind, ls = answered ls ++ line :: behind := by
  obtain ⟨hline, before, behind, rfl, hbefore⟩ := List.find?_eq_some_iff_append.mp h
  have hanswered : ∀ l ∈ before, goesOn l = true := fun l hl => by simpa using hbefore l hl
  have hline : goesOn line = false := by simpa using hline
  refine ⟨hline, behind, ?_⟩
  rw [answered, List.takeWhile_append_of_pos hanswered,
    List.takeWhile_cons_of_neg (by simp [hline]), List.append_nil]

/-- A line that ends with a line feed has no other. -/
theorem exists_front_of_getLast? {input : List UInt8} (h : line ∈ lines input)
    (hlast : line.getLast? = some 10) : ∃ front, 10 ∉ front ∧ line = front ++ [10] := by
  rw [lines_eq_linesBy] at h
  obtain ⟨front, hfront, rfl | rfl⟩ := exists_front_of_linesBy (linesBy_of_mem h)
  · exact absurd (List.mem_of_getLast? hlast) hfront
  · exact ⟨front, hfront, rfl⟩

/-- Other bytes behind the line that ends a session are cut into lines behind it. -/
theorem lines_append_of_ending? {input : List UInt8} (h : lines input = before ++ line :: behind)
    (hlast : line.getLast? = some 10) (more : List UInt8) :
    lines (before.flatten ++ line ++ more) = before ++ line :: lines more := by
  have hmem : line ∈ lines input := by simp [h]
  have hwhole : ∀ l ∈ before ++ [line], ∃ front, (10 : UInt8) ∉ front ∧ l = front ++ [10] := by
    have hbefore := exists_front_of_linesBy_append (lines_eq_linesBy input ▸ h)
    intro l hl
    rcases List.mem_append.mp hl with hl | hl
    · exact hbefore l hl
    · exact List.mem_singleton.mp hl ▸ exists_front_of_getLast? hmem hlast
  have hlines := linesBy_flatten_append hwhole more
  rw [List.flatten_append, List.flatten_singleton, List.append_assoc before] at hlines
  rw [lines_eq_linesBy, lines_eq_linesBy]
  exact hlines

/-- A session over any bytes: before each line that is answered, and before the line that ends the
session or the end of the input, there is a prompt; the tokens of each line stand on the first line
of what is typed; a session ends badly only at a line that is not valid UTF-8, and says farewell
only to a line that says `quit`.  What stands behind the line that ends it makes no difference. -/
theorem run_yields_record (input : List UInt8) :
    (run input).Yields (parting (ending? (lines input))).1
        (transcript ((answered (lines input)).map tokensOf) ++
          (parting (ending? (lines input))).2) ∧
      (∀ line ∈ answered (lines input), ∀ t ∈ tokensOf line,
        ∃ i j, t.span = ⟨⟨"repl", 1, i⟩, ⟨"repl", 1, j⟩⟩) ∧
      ∀ line, ending? (lines input) = some line → line.getLast? = some 10 →
        ∀ more, run ((answered (lines input)).flatten ++ line ++ more) = run input := by
  refine ⟨(delivers_answerAll (lines input)).yields, fun line hline t ht => ?_,
    fun line hending hlast more => ?_⟩
  · have hmem : line ∈ lines input := (List.takeWhile_subset goesOn) hline
    have hone : lines line = [line] := by
      rw [lines_eq_linesBy] at hmem ⊢
      exact linesBy_of_mem hmem
    exact exists_span_of_mem_tokensOf hone ht
  · obtain ⟨hline, behind, hsplit⟩ := exists_behind_of_ending? hending
    rw [run, lines_append_of_ending? hsplit hlast more, answerAll_append_of_not hline _ behind,
      ← hsplit, run]

/-- A session that is taken leave of between wide spaces, and one that breaks off in the middle of a
character, whatever stands behind. -/
theorem run_yields_record_farewell_and_broken :
    let typed := Text.encode "é ->\n\u2003quit \n"
    let broken := [0x31, 0x0A, 0xC3, 0x0A]
    (run typed).Yields (.ok ()) (Text.encode ("booleang> [repl 1:1-1:1] identifier `é`\n" ++
        "[repl 1:3-1:4] -> `->`\nbooleang> quit\n")) ∧
      (∀ more, run (typed ++ more) = run typed) ∧
      (run broken).Yields (.error .notUtf8)
        (Text.encode "booleang> [repl 1:1-1:1] number `1`\nbooleang> ") ∧
      ∀ more, run (broken ++ more) = run broken := by
  intro typed broken
  obtain ⟨htyped, -, hmore⟩ := run_yields_record typed
  obtain ⟨hbroken, -, hmore'⟩ := run_yields_record broken
  have hending : ending? (lines typed) = some (Text.encode "\u2003quit \n") := by decide +kernel
  have hending' : ending? (lines broken) = some [0xC3, 0x0A] := by decide +kernel
  have hwritten : transcript ((answered (lines typed)).map tokensOf) ++
      (parting (ending? (lines typed))).2 = Text.encode ("booleang> [repl 1:1-1:1] identifier " ++
        "`é`\n[repl 1:3-1:4] -> `->`\nbooleang> quit\n") := by decide +kernel
  have hwritten' : transcript ((answered (lines broken)).map tokensOf) ++
      (parting (ending? (lines broken))).2 =
        Text.encode "booleang> [repl 1:1-1:1] number `1`\nbooleang> " := by decide +kernel
  rw [hwritten, hending] at htyped
  rw [hwritten', hending'] at hbroken
  have hsplit : (answered (lines typed)).flatten ++ Text.encode "\u2003quit \n" = typed := by
    decide +kernel
  have hsplit' : (answered (lines broken)).flatten ++ [0xC3, 0x0A] = broken := by decide +kernel
  refine ⟨htyped, fun more => ?_, hbroken, fun more => ?_⟩
  · rw [← hmore _ hending (by decide +kernel) more, hsplit]
  · rw [← hmore' _ hending' (by decide +kernel) more, hsplit']

end Session
end CircuitText
