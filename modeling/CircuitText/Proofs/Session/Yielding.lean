import CircuitText.Session.Basic
import Mathlib.Data.List.TakeDrop
import Mathlib.Data.List.TakeWhile

/-!
# What a session writes

A sink takes what comes as long as there is room for it.  So what is done while writing is told by
how it ends and by the bytes that it puts behind those that were there, and a sink without room for
all of them holds the first of them when writing fails: `Writing.Delivers w result bytes`.  There is
one law for each thing that sessions are made of, and none looks at a sink again.  On a sink without
a bound this says that all the bytes are written: `Writing.Yields`.

A line that is valid UTF-8 and does not say `quit` is answered with its tokens, and the session goes
on.  Another line ends it.  So a session is the `transcript` of the lines before the first such
line, a prompt before each answer and one before the line that ends the session or the end of the
input, and then its `parting`.

* `Writing.Delivers`, `Writing.delivers_bind` --- what writing does to any sink;
* `Writing.Yields` --- what it does to a sink without a bound;
* `Session.goesOn`, `Session.transcript`, `Session.parting` --- the parts of a session;
* `Session.delivers_answerAll` --- a session over any lines;
* `Session.yields_answerAll` --- a session over lines that are answered.
-/

namespace CircuitText

/-! ## Room in a sink -/

namespace Sink

variable {sink sink' : Sink} {first second : List UInt8}

theorem fitting_of_none (h : sink.capacity = none) (bytes : List UInt8) :
    sink.fitting bytes = bytes := by
  rw [fitting, h]

theorem fitting_of_some {capacity : Nat} (h : sink.capacity = some capacity) (bytes : List UInt8) :
    sink.fitting bytes = bytes.take (capacity - sink.written.length) := by
  rw [fitting, h, length_written]

@[simp] theorem fitting_nil (sink : Sink) : sink.fitting [] = [] := by
  unfold fitting
  split <;> simp

/-- Behind bytes for which there is room, the room that they leave counts. -/
theorem fitting_append (hfirst : sink.fitting first = first)
    (hcapacity : sink'.capacity = sink.capacity)
    (hwritten : sink'.written = sink.written ++ first) :
    sink.fitting (first ++ second) = first ++ sink'.fitting second := by
  cases h : sink.capacity with
  | none => rw [fitting_of_none h, fitting_of_none (hcapacity.trans h)]
  | some capacity =>
    rw [fitting_of_some h, List.take_eq_self_iff] at hfirst
    rw [fitting_of_some h, fitting_of_some (hcapacity.trans h), hwritten, List.take_append,
      List.take_of_length_le hfirst, List.length_append, Nat.sub_sub]

/-- Behind bytes for which there is no room nothing is written. -/
theorem fitting_append_of_ne (hfirst : sink.fitting first ≠ first) (second : List UInt8) :
    sink.fitting (first ++ second) = sink.fitting first := by
  cases h : sink.capacity with
  | none => exact absurd (fitting_of_none h first) hfirst
  | some capacity =>
    rw [fitting_of_some h, ne_eq, List.take_eq_self_iff] at hfirst
    rw [fitting_of_some h, fitting_of_some h,
      List.take_append_of_le_length (Nat.le_of_not_le hfirst)]

theorem fitting_append_ne (hfirst : sink.fitting first ≠ first) (second : List UInt8) :
    sink.fitting (first ++ second) ≠ first ++ second := by
  rw [fitting_append_of_ne hfirst]
  intro heq
  have hlength : (sink.fitting first).length ≤ first.length := by
    unfold fitting
    split
    · exact Nat.le_refl _
    · exact List.length_take_le' ..
  have hnil : second = [] := by
    have := congrArg List.length heq
    rw [List.length_append] at this
    exact List.eq_nil_of_length_eq_zero (by omega)
  exact hfirst (by rwa [hnil, List.append_nil] at heq)

end Sink

/-! ## Writing to a sink -/

namespace Writing

variable {α β : Type} {w : Writing α} {f : α → Writing β} {a : α} {e : StreamError}
  {result : Except StreamError β} {bytes first second : List UInt8}

/-- How writing ends that has a result and leaves a sink. -/
def outcome : Except StreamError α → Sink → EStateM.Result StreamError Sink α
  | .ok a, sink => .ok a sink
  | .error e, sink => .error e sink

/-- If there is room for `bytes` then `w` writes them and ends with `result`; if there is not, it
writes as many as fit and fails. -/
def Delivers (w : Writing α) (result : Except StreamError α) (bytes : List UInt8) : Prop :=
  ∀ sink : Sink, ∃ sink' : Sink, sink'.capacity = sink.capacity ∧
    sink'.written = sink.written ++ sink.fitting bytes ∧
      w.run sink = outcome (if sink.fitting bytes = bytes then result else .error .full) sink'

theorem delivers_pure (a : α) : Delivers (pure a) (.ok a) [] := fun sink =>
  ⟨sink, rfl, by simp, by rw [if_pos (by simp)]; rfl⟩

theorem delivers_throw (e : StreamError) : Delivers (throw e : Writing α) (.error e) [] :=
  fun sink => ⟨sink, rfl, by simp, by rw [if_pos (by simp)]; rfl⟩

theorem bind_of_ok {sink sink' : Sink} (h : w.run sink = .ok a sink') :
    (w >>= f).run sink = (f a).run sink' := by
  show EStateM.bind w f sink = f a sink'
  rw [EStateM.bind, show w sink = .ok a sink' from h]

theorem bind_of_error {sink sink' : Sink} (h : w.run sink = .error e sink') :
    (w >>= f).run sink = .error e sink' := by
  show EStateM.bind w f sink = _
  rw [EStateM.bind, show w sink = .error e sink' from h]

/-- What is done after something that succeeds writes behind it. -/
theorem delivers_bind (hw : Delivers w (.ok a) first) (hf : Delivers (f a) result second) :
    Delivers (w >>= f) result (first ++ second) := by
  intro sink
  obtain ⟨middle, hmiddle, hwritten, hrun⟩ := hw sink
  by_cases hfirst : sink.fitting first = first
  · rw [if_pos hfirst] at hrun
    rw [hfirst] at hwritten
    obtain ⟨last, hlast, hwritten', hrun'⟩ := hf middle
    have hfitting : sink.fitting (first ++ second) = first ++ middle.fitting second :=
      Sink.fitting_append hfirst hmiddle hwritten
    refine ⟨last, hlast.trans hmiddle, ?_, ?_⟩
    · rw [hwritten', hwritten, hfitting, List.append_assoc]
    · rw [bind_of_ok hrun, hrun', hfitting]
      simp only [List.append_cancel_left_eq]
  · rw [if_neg hfirst] at hrun
    refine ⟨middle, hmiddle, ?_, ?_⟩
    · rw [hwritten, Sink.fitting_append_of_ne hfirst]
    · rw [bind_of_error hrun, if_neg (Sink.fitting_append_ne hfirst second)]
      rfl

/-- Nothing is done after something that fails. -/
theorem delivers_bind_of_error (hw : Delivers w (.error e) bytes) :
    Delivers (w >>= f) (.error e) bytes := by
  intro sink
  obtain ⟨sink', hcapacity, hwritten, hrun⟩ := hw sink
  refine ⟨sink', hcapacity, hwritten, ?_⟩
  by_cases hfits : sink.fitting bytes = bytes
  · rw [if_pos hfits] at hrun ⊢
    exact bind_of_error hrun
  · rw [if_neg hfits] at hrun ⊢
    exact bind_of_error hrun

theorem delivers_bytes (bytes : List UInt8) : Delivers (Writing.bytes bytes) (.ok ()) bytes := by
  intro sink
  refine ⟨sink.store bytes, rfl, Sink.written_store sink bytes, ?_⟩
  show Writing.bytes bytes sink = _
  rw [Writing.bytes]
  split <;> rfl

theorem delivers_text (text : String) : Delivers (Writing.text text) (.ok ()) (Text.encode text) :=
  delivers_bytes _

/-- What is done for one member of a list after the other is written one behind the other. -/
theorem delivers_forM {as : List α} {f : α → Writing Unit} {bytes : α → List UInt8}
    (h : ∀ a, Delivers (f a) (.ok ()) (bytes a)) :
    Delivers (as.forM f) (.ok ()) (as.flatMap bytes) := by
  induction as with
  | nil => exact delivers_pure ()
  | cons a as ih =>
    show Delivers (f a >>= fun _ => as.forM f) (.ok ()) _
    rw [List.flatMap_cons]
    exact delivers_bind (h a) ih

/-! ### Sinks without a bound -/

/-- With a sink without a bound, `w` ends with `result` and writes `bytes`. -/
def Yields (w : Writing α) (result : Except StreamError α) (bytes : List UInt8) : Prop :=
  ∀ sink : Sink, sink.capacity = none → ∃ sink' : Sink, sink'.capacity = none ∧
    sink'.written = sink.written ++ bytes ∧ w.run sink = outcome result sink'

theorem Delivers.yields {result : Except StreamError α} (h : Delivers w result bytes) :
    Yields w result bytes := by
  intro sink hsink
  obtain ⟨sink', hcapacity, hwritten, hrun⟩ := h sink
  have hfits := Sink.fitting_of_none hsink bytes
  rw [hfits] at hwritten
  rw [if_pos hfits] at hrun
  exact ⟨sink', hcapacity.trans hsink, hwritten, hrun⟩

end Writing

/-! ## Sessions -/

namespace Session

open Writing

/-- The answer to a line with these tokens: each in a line of its own. -/
def reply (ts : List Token) : List UInt8 := ts.flatMap fun t => Text.encode (t.render ++ "\n")

/-- What is written in a session whose lines have these tokens: a prompt before each answer, and
one before the end of the input. -/
def transcript (answers : List (List Token)) : List UInt8 :=
  answers.flatMap (fun ts => Text.encode prompt ++ reply ts) ++ Text.encode prompt

/-- Whether a session goes on behind a line: the line is valid UTF-8 and does not say `quit`. -/
def goesOn (line : List UInt8) : Bool :=
  (Text.decode? line).any fun text => Text.trimBlanks text.toList ≠ farewell.toList

/-- The tokens of a line; what is not valid UTF-8 has none. -/
def tokensOf (line : List UInt8) : List Token :=
  match Text.decode? line with
  | none => []
  | some text => Lexer.tokenize text.toList label

/-- What comes of the line that ends a session, or of the end of the input: the result of the
session, and what is written last. -/
def parting : Option (List UInt8) → Except StreamError Unit × List UInt8
  | none => (.ok (), [])
  | some line =>
    if (Text.decode? line).isSome then (.ok (), Text.encode (farewell ++ "\n"))
    else (.error .notUtf8, [])

/-- The lines before the first one that ends the session. -/
def answered (ls : List (List UInt8)) : List (List UInt8) := ls.takeWhile goesOn

/-- The line that ends the session, unless the input ends before. -/
def ending? (ls : List (List UInt8)) : Option (List UInt8) := ls.find? fun line => !goesOn line

/-- What is written in a session over these lines. -/
def record (ls : List (List UInt8)) : List UInt8 :=
  transcript ((answered ls).map tokensOf) ++ (parting (ending? ls)).2

variable {line : List UInt8} {text : String}

theorem goesOn_eq_true_iff : goesOn line = true ↔
    ∃ text, Text.decode? line = some text ∧ Text.trimBlanks text.toList ≠ farewell.toList := by
  simp [goesOn, Option.any_eq_true]

theorem goesOn_encode : goesOn (Text.encode text) = true ↔
    Text.trimBlanks text.toList ≠ farewell.toList := by
  simp [goesOn, Text.decode?_encode]

theorem delivers_echo (line : String) :
    Delivers (echo line) (.ok ()) (reply (Lexer.tokenize line.toList label)) :=
  delivers_forM fun _ => delivers_text _

/-- A line behind which the session goes on is answered with its tokens. -/
theorem delivers_answer (h : goesOn line = true) :
    Delivers (answer line) (.ok true) (reply (tokensOf line)) := by
  obtain ⟨text, hdecode, htext⟩ := goesOn_eq_true_iff.mp h
  rw [answer, tokensOf, hdecode]
  dsimp only
  rw [if_neg htext, ← List.append_nil (reply _)]
  exact delivers_bind (delivers_echo text) (delivers_pure true)

/-- Behind another line the session does not go on. -/
theorem delivers_answer_of_not (h : goesOn line = false) :
    Delivers (answer line) ((parting (some line)).1.map fun _ => false)
      (parting (some line)).2 := by
  cases hdecode : Text.decode? line with
  | none =>
    simp only [answer, parting, hdecode, Option.isSome_none]
    exact delivers_throw _
  | some text =>
    have htext : Text.trimBlanks text.toList = farewell.toList := by
      simpa [goesOn, hdecode] using h
    simp only [answer, parting, hdecode, if_pos htext, Option.isSome_some, if_true]
    rw [← List.append_nil (Text.encode _)]
    exact delivers_bind (delivers_text _) (delivers_pure false)

theorem record_nil : record [] = Text.encode prompt := by
  simp [record, answered, ending?, transcript, parting]

theorem record_cons {more : List (List UInt8)} (h : goesOn line = true) :
    record (line :: more) = Text.encode prompt ++ (reply (tokensOf line) ++ record more) := by
  simp [record, answered, ending?, transcript, h]

theorem record_cons_of_not {more : List (List UInt8)} (h : goesOn line = false) :
    record (line :: more) = Text.encode prompt ++ (parting (some line)).2 := by
  simp [record, answered, ending?, transcript, h]

/-- A session over any lines, on any sink. -/
theorem delivers_answerAll (ls : List (List UInt8)) :
    Delivers (answerAll ls) (parting (ending? ls)).1 (record ls) := by
  induction ls with
  | nil =>
    rw [record_nil]
    exact delivers_text prompt
  | cons line more ih =>
    cases h : goesOn line with
    | true =>
      have hending : ending? (line :: more) = ending? more := by simp [ending?, h]
      rw [record_cons h, hending, answerAll]
      exact delivers_bind (delivers_text prompt) (delivers_bind (delivers_answer h) ih)
    | false =>
      have hending : ending? (line :: more) = some line := by simp [ending?, h]
      have hanswer := delivers_answer_of_not h
      rw [record_cons_of_not h, hending, answerAll]
      refine delivers_bind (delivers_text prompt) ?_
      generalize parting (some line) = last at hanswer
      obtain ⟨result, bytes⟩ := last
      cases result with
      | error e => exact delivers_bind_of_error hanswer
      | ok u =>
        rw [← List.append_nil bytes]
        exact delivers_bind hanswer (delivers_pure ())

/-- A session over lines none of which says `quit` is their transcript. -/
theorem yields_answerAll {texts : List String}
    (h : ∀ line ∈ texts, Text.trimBlanks line.toList ≠ farewell.toList) :
    Yields (answerAll (texts.map Text.encode)) (.ok ())
      (transcript (texts.map fun line => Lexer.tokenize line.toList label)) := by
  have hall : ∀ line ∈ texts.map Text.encode, goesOn line = true :=
    List.forall_mem_map.mpr fun line hline => goesOn_encode.mpr (h line hline)
  have hanswered : answered (texts.map Text.encode) = texts.map Text.encode :=
    List.takeWhile_eq_self_iff.mpr hall
  have hending : ending? (texts.map Text.encode) = none :=
    List.find?_eq_none.mpr fun line hline => by simp [hall line hline]
  have hsession := (delivers_answerAll (texts.map Text.encode)).yields
  rw [record, hanswered, hending, List.map_map] at hsession
  simpa [parting, tokensOf, Text.decode?_encode, Function.comp_def] using hsession

end Session
end CircuitText
