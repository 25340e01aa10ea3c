import CircuitText.Proofs.Session.Ending

/-!
# Sessions with a bounded sink

On a sink of bounded capacity a session is the same as on a sink without a bound, cut off: it writes
the first bytes, as many as there is room for, and if that is not all of them it fails in the middle
of writing, wherever that is.  Whatever would have come of it otherwise, the fault is then that the
sink is full.

Nothing more is read either.  `Session.converse` is a session in which the lines are taken off the
input one by one, each when it is about to be answered, so that it shows what is left unread.  It
does to any sink what `Session.run` does.  When its sink is full it has read the fewest lines for
which the capacity is too small.

* `Writing.IsCut`, `Writing.Delivers.isCut` --- what is done on a bounded sink is cut off;
* `Session.splitLine`, `Session.converse` --- sessions that take lines off the input;
* `Session.run_eq_converse` --- they are the same sessions;
* `Session.exists_fullAfter` --- what has been read when the sink is full;
* `Session.isCut_echo_and_run` --- answers and sessions on bounded sinks.
-/

namespace CircuitText

/-! ## Being cut off -/

namespace Sink

variable {sink : Sink}

/-- What there is room for can be taken in parts. -/
theorem fitting_append_eq_iff {sink' : Sink} {first second : List UInt8}
    (hfirst : sink.fitting first = first) (hcapacity : sink'.capacity = sink.capacity)
    (hwritten : sink'.written = sink.written ++ first) :
    sink.fitting (first ++ second) = first ++ second ↔ sink'.fitting second = second := by
  rw [fitting_append hfirst hcapacity hwritten, List.append_cancel_left_eq]

theorem fitting_empty (capacity : Nat) (bytes : List UInt8) :
    (empty (some capacity)).fitting bytes = bytes.take capacity :=
  fitting_of_some rfl bytes

theorem fitting_empty_eq_iff (capacity : Nat) (bytes : List UInt8) :
    (empty (some capacity)).fitting bytes = bytes ↔ bytes.length ≤ capacity := by
  rw [fitting_empty, List.take_eq_self_iff]

end Sink

namespace Writing

variable {α : Type}

/-- What is written to a sink that is empty. -/
def written (w : Writing α) (capacity : Option Nat) : List UInt8 :=
  match w.run (.empty capacity) with
  | .ok _ sink | .error _ sink => sink.written

/-- How it ends. -/
def result (w : Writing α) (capacity : Option Nat) : Except StreamError α :=
  match w.run (.empty capacity) with
  | .ok a _ => .ok a
  | .error e _ => .error e

/-- On a sink of this capacity `w` does what it does on a sink without a bound, as far as there is
room. -/
structure IsCut (w : Writing α) (capacity : Nat) : Prop where
  written : w.written (some capacity) = (w.written none).take capacity
  /-- If there is room for all of it, it ends in the same way. -/
  fits : (w.written none).length ≤ capacity → w.result (some capacity) = w.result none
  /-- If there is not, it fails because the sink is full. -/
  full : capacity < (w.written none).length → ∃ e, w.result (some capacity) = .error e ∧
    e.message = "failed to write whole buffer"

section Delivers

variable {w : Writing α} {r : Except StreamError α} {bytes : List UInt8}

/-- How writing ends when there is room, and what it leaves behind. -/
theorem Delivers.run_of_fits (h : Delivers w r bytes) {sink : Sink}
    (hfits : sink.fitting bytes = bytes) : ∃ sink' : Sink, sink'.capacity = sink.capacity ∧
      sink'.written = sink.written ++ bytes ∧ w.run sink = outcome r sink' := by
  obtain ⟨sink', hcapacity, hwritten, hrun⟩ := h sink
  rw [hfits] at hwritten
  rw [if_pos hfits] at hrun
  exact ⟨sink', hcapacity, hwritten, hrun⟩

/-- How writing ends when there is no room. -/
theorem Delivers.run_of_ne (h : Delivers w r bytes) {sink : Sink}
    (hfull : sink.fitting bytes ≠ bytes) : ∃ sink', w.run sink = .error .full sink' := by
  obtain ⟨sink', -, -, hrun⟩ := h sink
  rw [if_neg hfull] at hrun
  exact ⟨sink', hrun⟩

/-- What is written to an empty sink, and how that ends. -/
theorem Delivers.written_and_result (h : Delivers w r bytes) (capacity : Option Nat) :
    w.written capacity = (Sink.empty capacity).fitting bytes ∧
      w.result capacity =
        if (Sink.empty capacity).fitting bytes = bytes then r else .error .full := by
  obtain ⟨sink', -, hwritten, hrun⟩ := h (.empty capacity)
  rw [Sink.written_empty, List.nil_append] at hwritten
  generalize (if (Sink.empty capacity).fitting bytes = bytes then r else .error .full) = ending
    at hrun ⊢
  rw [Writing.written, Writing.result, hrun, ← hwritten]
  cases ending <;> exact ⟨rfl, rfl⟩

theorem Delivers.written_none (h : Delivers w r bytes) : w.written none = bytes :=
  (h.written_and_result none).1

theorem Delivers.isCut (h : Delivers w r bytes) (capacity : Nat) : IsCut w capacity := by
  obtain ⟨hwritten, hresult⟩ := h.written_and_result (some capacity)
  obtain ⟨hwhole, hresult'⟩ := h.written_and_result none
  rw [Sink.fitting_of_none rfl] at hwhole hresult'
  rw [if_pos rfl] at hresult'
  rw [Sink.fitting_empty] at hwritten
  refine ⟨by rw [hwritten, hwhole], fun hfits => ?_, fun hfull => ⟨.full, ?_, rfl⟩⟩
  · rw [hwhole, ← Sink.fitting_empty_eq_iff] at hfits
    rw [hresult, hresult', if_pos hfits]
  · rw [hwhole, ← Nat.not_le, ← Sink.fitting_empty_eq_iff] at hfull
    rw [hresult, if_neg hfull]

/-- Bytes that are written piece by piece are cut off in the same place. -/
theorem delivers_pieces (pieces : List (List UInt8)) :
    Delivers (pieces.forM Writing.bytes) (.ok ()) pieces.flatten := by
  rw [← List.flatMap_id]
  exact delivers_forM delivers_bytes

theorem Delivers.pieces {w : Writing Unit} (h : Delivers w (.ok ()) bytes)
    {pieces : List (List UInt8)} (hpieces : pieces.flatten = w.written none)
    (capacity : Option Nat) :
    (pieces.forM Writing.bytes).written capacity = w.written capacity ∧
      (pieces.forM Writing.bytes).result capacity = w.result capacity := by
  obtain ⟨hwritten, hresult⟩ := h.written_and_result capacity
  obtain ⟨hwritten', hresult'⟩ := (delivers_pieces pieces).written_and_result capacity
  rw [hpieces, h.written_none] at hwritten' hresult'
  exact ⟨hwritten'.trans hwritten.symm, hresult'.trans hresult.symm⟩

end Delivers
end Writing

/-! ## Taking lines off the input -/

namespace Session

open Writing

/-- The first line, with its line feed, and what stands behind it. -/
def splitLine : List UInt8 → List UInt8 × List UInt8
  | [] => ([], [])
  | b :: bytes =>
    if b = 10 then ([b], bytes) else (b :: (splitLine bytes).1, (splitLine bytes).2)

theorem length_splitLine_lt {bytes : List UInt8} (h : bytes ≠ []) :
    (splitLine bytes).2.length < bytes.length := by
  induction bytes with
  | nil => exact absurd rfl h
  | cons b bytes ih =>
    rw [splitLine]
    split
    · exact Nat.lt_succ_self _
    · cases bytes with
      | nil => exact Nat.zero_lt_succ _
      | cons c bytes => exact Nat.lt_succ_of_lt (ih (List.cons_ne_nil c bytes))

/-- The lines are the first one and those of what stands behind it. -/
theorem lines_eq_splitLine {bytes : List UInt8} (h : bytes ≠ []) :
    lines bytes = (splitLine bytes).1 :: lines (splitLine bytes).2 := by
  induction bytes with
  | nil => exact absurd rfl h
  | cons b bytes ih =>
    rw [lines, splitLine]
    split
    · rfl
    · cases bytes with
      | nil => rfl
      | cons c bytes => rw [ih (List.cons_ne_nil c bytes)]

/-- A session under way. -/
structure Talk where
  /-- What has not been read yet. -/
  unread : List UInt8
  /-- What is written to. -/
  sink : Sink

/-- A session that takes a line off the input after each prompt. -/
def converse (unread : List UInt8) (sink : Sink) : Except StreamError Unit × Talk :=
  match (Writing.text prompt).run sink with
  | .error e sink => (.error e, ⟨unread, sink⟩)
  | .ok _ sink =>
    if h : unread = [] then (.ok (), ⟨[], sink⟩)
    else
      have _shorter := length_splitLine_lt h
      match (answer (splitLine unread).1).run sink with
      | .error e sink => (.error e, ⟨(splitLine unread).2, sink⟩)
      | .ok false sink => (.ok (), ⟨(splitLine unread).2, sink⟩)
      | .ok true sink => converse (splitLine unread).2 sink
termination_by unread.length

/-- It does to any sink what a session over all the lines does. -/
theorem run_eq_converse (input : List UInt8) (sink : Sink) :
    (run input).run sink = outcome (converse input sink).1 (converse input sink).2.sink := by
  rw [run]
  fun_induction converse input sink with
  | case1 unread sink e sink' hprompt =>
    cases lines unread with
    | nil => exact hprompt
    | cons line more => exact bind_of_error hprompt
  | case2 sink _ sink' hprompt => exact hprompt
  | case3 unread sink _ sink' hprompt hne _ e sink'' hanswer =>
    rw [lines_eq_splitLine hne, answerAll, bind_of_ok hprompt]
    exact bind_of_error hanswer
  | case4 unread sink _ sink' hprompt hne _ sink'' hanswer =>
    rw [lines_eq_splitLine hne, answerAll, bind_of_ok hprompt, bind_of_ok hanswer]
    rfl
  | case5 unread sink _ sink' hprompt hne _ sink'' hanswer ih =>
    rw [lines_eq_splitLine hne, answerAll, bind_of_ok hprompt, bind_of_ok hanswer]
    exact ih

/-! ## What has been read -/

variable {line unread : List UInt8} {sink : Sink}

/-- What is written between a line and the next prompt. -/
def replyTo (line : List UInt8) : List UInt8 :=
  if goesOn line then reply (tokensOf line) else (parting (some line)).2

theorem replyTo_of_goesOn (h : goesOn line = true) : replyTo line = reply (tokensOf line) :=
  if_pos h

theorem record_cons_eq (line : List UInt8) (more : List (List UInt8)) :
    record (line :: more) =
      Text.encode prompt ++ (replyTo line ++ if goesOn line then record more else []) := by
  cases h : goesOn line with
  | true => simp [record_cons h, replyTo, h]
  | false => simp [record_cons_of_not h, replyTo, h]

theorem exists_delivers_answer (line : List UInt8) :
    ∃ result, Delivers (answer line) result (replyTo line) := by
  cases h : goesOn line with
  | true => exact ⟨_, by simpa [replyTo, h] using delivers_answer h⟩
  | false => exact ⟨_, by simpa [replyTo, h] using delivers_answer_of_not h⟩

/-- The sink has no room for a session over the first `k` lines, but for one over fewer of them, and
the lines behind these are left unread. -/
structure FullAfter (sink : Sink) (ls : List (List UInt8)) (unread : List UInt8) (k : Nat) :
    Prop where
  unread_eq : unread = (ls.drop k).flatten
  full : sink.fitting (record (ls.take k)) ≠ record (ls.take k)
  fits : ∀ j < k, sink.fitting (record (ls.take j)) = record (ls.take j)

/-- There is no room for a prompt. -/
theorem fullAfter_zero (h : sink.fitting (Text.encode prompt) ≠ Text.encode prompt)
    (ls : List (List UInt8)) : FullAfter sink ls ls.flatten 0 :=
  ⟨rfl, by rwa [List.take_zero, record_nil], by simp⟩

/-- There is room for a prompt, but not for what is written behind the line that is read then. -/
theorem fullAfter_one {sink' : Sink}
    (hprompt : sink.fitting (Text.encode prompt) = Text.encode prompt)
    (hcapacity : sink'.capacity = sink.capacity)
    (hwritten : sink'.written = sink.written ++ Text.encode prompt)
    (hreply : sink'.fitting (replyTo line) ≠ replyTo line) (more : List (List UInt8)) :
    FullAfter sink (line :: more) more.flatten 1 := by
  refine ⟨rfl, ?_, fun j hj => ?_⟩
  · rw [List.take_succ_cons, List.take_zero, record_cons_eq, ne_eq,
      Sink.fitting_append_eq_iff hprompt hcapacity hwritten]
    exact Sink.fitting_append_ne hreply _
  · rw [Nat.lt_one_iff.mp hj, List.take_zero, record_nil]
    exact hprompt

/-- There is room for both, and the sink is full after more lines. -/
theorem FullAfter.succ {sink₁ sink₂ : Sink} {more : List (List UInt8)} {k : Nat}
    (hprompt : sink.fitting (Text.encode prompt) = Text.encode prompt)
    (hcapacity₁ : sink₁.capacity = sink.capacity)
    (hwritten₁ : sink₁.written = sink.written ++ Text.encode prompt)
    (hreply : sink₁.fitting (replyTo line) = replyTo line)
    (hcapacity₂ : sink₂.capacity = sink₁.capacity)
    (hwritten₂ : sink₂.written = sink₁.written ++ replyTo line) (hline : goesOn line = true)
    (h : FullAfter sink₂ more unread k) : FullAfter sink (line :: more) unread (k + 1) := by
  have hfits : ∀ j, sink.fitting (record ((line :: more).take (j + 1))) =
      record ((line :: more).take (j + 1)) ↔
        sink₂.fitting (record (more.take j)) = record (more.take j) := by
    intro j
    rw [List.take_succ_cons, record_cons_eq, if_pos hline,
      Sink.fitting_append_eq_iff hprompt hcapacity₁ hwritten₁,
      Sink.fitting_append_eq_iff hreply hcapacity₂ hwritten₂]
  refine ⟨h.unread_eq, mt (hfits k).mp h.full, fun j hj => ?_⟩
  cases j with
  | zero => rwa [List.take_zero, record_nil]
  | succ j => exact (hfits j).mpr (h.fits j (Nat.lt_of_succ_lt_succ hj))

/-- When the sink is full, the fewest lines have been read for which there is no room. -/
theorem exists_fullAfter (hfull : sink.fitting (record (lines unread)) ≠ record (lines unread)) :
    ∃ k, FullAfter sink (lines unread) (converse unread sink).2.unread k := by
  -- on what is unread; the room that a prompt and an answer leave is that of the sink behind them
  induction hn : unread.length using Nat.strongRecOn generalizing unread sink with
  | ind n ih =>
    rw [converse]
    by_cases hprompt : sink.fitting (Text.encode prompt) = Text.encode prompt
    · obtain ⟨sink₁, hcapacity₁, hwritten₁, hrun₁⟩ := (delivers_text prompt).run_of_fits hprompt
      by_cases hne : unread = []
      · exact absurd hprompt (by simpa [hne, lines, record_nil] using hfull)
      · have hlt := length_splitLine_lt hne
        rw [lines_eq_splitLine hne] at hfull ⊢
        simp only [hrun₁, outcome, dif_neg hne]
        generalize splitLine unread = found at hlt hfull ⊢
        obtain ⟨line, rest⟩ := found
        rw [record_cons_eq, ne_eq, Sink.fitting_append_eq_iff hprompt hcapacity₁ hwritten₁] at hfull
        by_cases hreply : sink₁.fitting (replyTo line) = replyTo line
        · cases hline : goesOn line with
          | false => exact absurd hreply (by simpa [hline] using hfull)
          | true =>
            have hanswer := delivers_answer hline
            rw [← replyTo_of_goesOn hline] at hanswer
            obtain ⟨sink₂, hcapacity₂, hwritten₂, hrun₂⟩ := hanswer.run_of_fits hreply
            rw [if_pos hline, Sink.fitting_append_eq_iff hreply hcapacity₂ hwritten₂] at hfull
            obtain ⟨k, h⟩ := ih rest.length (hn ▸ hlt) hfull rfl
            rw [hrun₂]
            exact ⟨k + 1, h.succ hprompt hcapacity₁ hwritten₁ hreply hcapacity₂ hwritten₂ hline⟩
        · obtain ⟨result, hanswer⟩ := exists_delivers_answer line
          obtain ⟨sink', hrun⟩ := hanswer.run_of_ne hreply
          have hone := fullAfter_one hprompt hcapacity₁ hwritten₁ hreply (lines rest)
          rw [flatten_lines] at hone
          rw [hrun]
          exact ⟨1, hone⟩
    · obtain ⟨sink', hrun⟩ := (delivers_text prompt).run_of_ne hprompt
      rw [hrun]
      have hzero := fullAfter_zero hprompt (lines unread)
      rw [flatten_lines] at hzero
      exact ⟨0, hzero⟩

/-- Some of the lines of the input are the lines of what they make up. -/
theorem lines_flatten_take (input : List UInt8) (k : Nat) :
    lines ((lines input).take k).flatten = (lines input).take k := by
  rw [lines_eq_linesBy, lines_eq_linesBy]
  induction input using induction_on_lines (10 : UInt8) generalizing k with
  | nil => simp [linesBy]
  | last front hne hfront =>
    rw [linesBy_of_notMem hne hfront]
    cases k with
    | zero => rfl
    | succ k => simp [linesBy_of_notMem hne hfront]
  | line front rest hfront ih =>
    rw [linesBy_append hfront]
    cases k with
    | zero => rfl
    | succ k =>
      rw [List.take_succ_cons, List.flatten_cons, List.append_assoc, List.singleton_append,
        linesBy_append hfront, ih]

/-- On a bounded sink the answer to a line and a session are cut off: the first bytes are written,
and if that is not all of them then writing fails, also within an answer that is written piece by
piece.  A session has then read the fewest lines for which the capacity is too small, and reads no
more. -/
theorem isCut_echo_and_run (capacity : Nat) :
    (∀ line, (echo line).IsCut capacity ∧
      ∀ pieces : List (List UInt8), pieces.flatten = (echo line).written none →
        (pieces.forM Writing.bytes).written (some capacity) = (echo line).written (some capacity) ∧
          (pieces.forM Writing.bytes).result (some capacity) = (echo line).result (some capacity)) ∧
      ∀ input, (run input).IsCut capacity ∧
        (∀ sink, (run input).run sink =
          outcome (converse input sink).1 (converse input sink).2.sink) ∧
        (capacity < ((run input).written none).length →
          ∃ k, (converse input (.empty (some capacity))).2.unread =
              ((lines input).drop k).flatten ∧
            capacity < ((run ((lines input).take k).flatten).written none).length ∧
              ∀ j < k, ((run ((lines input).take j).flatten).written none).length ≤ capacity) := by
  refine ⟨fun line => ⟨(delivers_echo line).isCut capacity,
      fun _ hpieces => (delivers_echo line).pieces hpieces _⟩,
    fun input => ⟨(delivers_answerAll _).isCut capacity, run_eq_converse input, fun hfull => ?_⟩⟩
  have hfits : ∀ k, ((run ((lines input).take k).flatten).written none).length ≤ capacity ↔
      (Sink.empty (some capacity)).fitting (record ((lines input).take k)) =
        record ((lines input).take k) := by
    intro k
    rw [run, lines_flatten_take, (delivers_answerAll _).written_none, Sink.fitting_empty_eq_iff]
  rw [run, (delivers_answerAll _).written_none, ← Nat.not_le, ← Sink.fitting_empty_eq_iff] at hfull
  obtain ⟨k, h⟩ := exists_fullAfter hfull
  exact ⟨k, h.unread_eq, Nat.lt_of_not_le (mt (hfits k).mp h.full),
    fun j hj => (hfits j).mpr (h.fits j hj)⟩

/-- With room up to the middle of a character in the first answer, the second line, which is not
valid UTF-8, is not read; with room for both prompts and the answer it is, and is at fault.  The
answer is cut off in the same place when it is written in two pieces. -/
theorem isCut_echo_and_run_within_character :
    let input := Text.encode "é\n" ++ [0xC3, 0x0A]
    let pieces := [Text.encode "[repl 1:1-1:1] ", Text.encode "identifier `é`\n"]
    (pieces.forM Writing.bytes).written (some 28) =
        Text.encode "[repl 1:1-1:1] identifier `" ++ [0xC3] ∧
      (run input).written (some 38) =
        Text.encode "booleang> [repl 1:1-1:1] identifier `" ++ [0xC3] ∧
      (∃ e, (run input).result (some 38) = .error e ∧
        e.message = "failed to write whole buffer") ∧
      (converse input (.empty (some 38))).2.unread = [0xC3, 0x0A] ∧
      (run input).written (some 51) =
        Text.encode "booleang> [repl 1:1-1:1] identifier `é`\nbooleang> " ∧
      (run input).result (some 51) = .error .notUtf8 := by
  intro input pieces
  have hlines : lines input = [Text.encode "é\n", [0xC3, 0x0A]] := by decide +kernel
  have hwritten : (run input).written none =
      Text.encode "booleang> [repl 1:1-1:1] identifier `é`\nbooleang> " := by decide +kernel
  obtain ⟨hecho, -⟩ := isCut_echo_and_run 28
  obtain ⟨hanswer, hpieces⟩ := hecho "é\n"
  obtain ⟨-, hrun⟩ := isCut_echo_and_run 38
  obtain ⟨hcut, -, hread⟩ := hrun input
  obtain ⟨-, hrun'⟩ := isCut_echo_and_run 51
  obtain ⟨hcut', -, -⟩ := hrun' input
  obtain ⟨k, hunread, hfull, hfits⟩ := hread (by rw [hwritten]; decide +kernel)
  have hk : k = 1 := by
    have hzero : ((run ((lines input).take 0).flatten).written none).length = 10 := by
      decide +kernel
    have hone : ((run ((lines input).take 1).flatten).written none).length = 51 := by
      decide +kernel
    rcases k with _ | _ | k
    · omega
    · rfl
    · have := hfits 1 (by omega)
      omega
  refine ⟨?_, ?_, hcut.full (by rw [hwritten]; decide +kernel), ?_, ?_, ?_⟩
  · rw [(hpieces pieces (by decide +kernel)).1, hanswer.written]
    decide +kernel
  · rw [hcut.written, hwritten]
    decide +kernel
  · rw [hunread, hk, hlines]
    rfl
  · rw [hcut'.written, hwritten]
    decide +kernel
  · rw [hcut'.fits (by rw [hwritten]; decide +kernel)]
    decide +kernel

end Session
end CircuitText
