import CircuitText.Proofs.Lexing.Appending
import CircuitText.Proofs.Parsing.Program

/-!
# Programs behind programs

A program is a name, which may be left out, and any number of references and circuits.  So the
references and circuits of a program without a name may be put behind those of any other program.
The same holds of texts, with a line feed between the two: the words of the second text come behind
those of the first, since no word of a program is illegal and a string that does not end in a
backslash is settled.

* `Grammar.IsProgram.append` --- words of programs;
* `Program.parse_append_line` --- texts of programs.
-/

namespace CircuitText

/-- What follows a program without a name may follow another program. -/
theorem Grammar.IsProgram.append {n : Nat} {ws vs : List Word} {p q : Program}
    (hp : IsProgram n ws p) (hq : IsProgram n vs q) (hname : ∀ w ∈ vs.head?, w.kind ≠ .name) :
    IsProgram n (ws ++ vs) ⟨p.name, p.inclusions ++ q.inclusions, p.circuits ++ q.circuits⟩ := by
  obtain ⟨named, content⟩ := hp
  obtain ⟨named', content'⟩ := hq
  cases named' with
  | none =>
    rw [List.nil_append, List.append_assoc, ← List.filterMap_append, ← List.filterMap_append]
    exact .mk named (content.append content')
  | named => exact absurd rfl (hname _ rfl)

namespace Program

/-- The words of a program are settled if its strings do not end in a backslash. -/
theorem isSettled_of_parse {text : List Char} {file : String} {p : Program}
    (h : parse text file = .ok p) (hstrings : ∀ t ∈ Lexer.tokenize text file, t.kind = .string →
      t.literal.toList.getLast? ≠ some '\\') :
    ∀ w ∈ Lexer.words text file, w.IsSettled := by
  have hlegal := Grammar.legal_isProgram _ _ _ (parse_eq_ok_iff.mp h)
  intro w hw
  obtain ⟨t, ht, rfl⟩ := List.mem_map.mp hw
  exact ⟨fun hillegal => absurd hillegal (hlegal _ hw), hstrings t ht⟩

/-- When two programs are read from two texts, the second without a name, and no string of the first
ends in a backslash, then the two texts with a line feed between them are one program: that with
the name of the first and the references and circuits of both. -/
theorem parse_append_line {first second : List Char} {file file' : String} {p q : Program}
    (hp : parse first file = .ok p) (hq : parse second file' = .ok q)
    (hname : ∀ t ∈ (Lexer.tokenize second file').head?, t.kind ≠ .name)
    (hstrings : ∀ t ∈ Lexer.tokenize first file, t.kind = .string →
      t.literal.toList.getLast? ≠ some '\\') (other : String) :
    parse (first ++ '\n' :: second) other =
      .ok ⟨p.name, p.inclusions ++ q.inclusions, p.circuits ++ q.circuits⟩ := by
  have hhead : ∀ w ∈ (Lexer.words second file').head?, w.kind ≠ .name := by
    intro w hw
    rw [Lexer.words, List.head?_map] at hw
    obtain ⟨t, ht, rfl⟩ := Option.map_eq_some_iff.mp hw
    exact hname t ht
  rw [parse_eq_ok_iff, Lexer.words_append_line (isSettled_of_parse hp hstrings) file']
  exact (parse_eq_ok_iff.mp hp).append (parse_eq_ok_iff.mp hq) hhead

/-- The first text ends in a comment, and both have strings with quotes in them. -/
theorem parse_append_line_comment :
    let first := "name: 'a \"'; include \"b\\\"\"; # 'first".toList
    let second := "circuit f(x) -> (y) \x7b x -> y; \x7d include name '\"';".toList
    let p : Program := ⟨"a \"", [⟨false, "b\""⟩], []⟩
    let q : Program := ⟨defaultName, [⟨true, "\""⟩],
      [⟨"f", ["x"], ["y"], [.pipe [.register "x"] [.register "y"]]⟩]⟩
    parse first "here" = .ok p ∧ parse second "there" = .ok q ∧
      (∀ t ∈ (Lexer.tokenize second "there").head?, t.kind ≠ .name) ∧
      (∀ t ∈ Lexer.tokenize first "here", t.kind = .string →
        t.literal.toList.getLast? ≠ some '\\') ∧
      parse (first ++ '\n' :: second) "both" =
        .ok ⟨"a \"", [⟨false, "b\""⟩, ⟨true, "\""⟩], q.circuits⟩ := by
  intro first second p q
  have hp : parse first "here" = .ok p := (sameReading_iff _ _).mp (by decide +kernel)
  have hq : parse second "there" = .ok q := (sameReading_iff _ _).mp (by decide +kernel)
  have hname : ∀ t ∈ (Lexer.tokenize second "there").head?, t.kind ≠ .name := by decide +kernel
  have hstrings : ∀ t ∈ Lexer.tokenize first "here", t.kind = .string →
      t.literal.toList.getLast? ≠ some '\\' := by decide +kernel
  exact ⟨hp, hq, hname, hstrings, parse_append_line hp hq hname hstrings "both"⟩

end Program
end CircuitText
