import CircuitText.Proofs.Lexing.Longest

/-!
# Patterns with backtracking

A pattern is written down as a regular expression whose ways to match are ordered: of two
alternatives the first is tried first, and a repetition goes on for as long as it can.  What is
tried first is kept if the rest of the pattern fits behind it; otherwise the next way is tried.
`Regular.splits` lists all the ways to split a text, in the order in which they are tried, and the
first of them is the match.

Each shape of lexeme has its regular expression, `Pattern.regular`.  The scans of `Pattern.split?`
go through a text once and never turn back, and `Pattern.head?_splits_regular` says that they find
the match.  For numbers and words that is so because what follows a run fits wherever the run ends.
For strings it is not: a body runs over a quote behind a backslash and may have to turn back to it.
There the alternatives at a backslash are what the flag of the scan stands for.

The proofs go along the expression.  `Regular.first?` is the match of an expression *followed by*
something else, and has one equation for each way to build an expression.

* `Regular.splits` --- the ways to split a text, in order;
* `Regular.mem_splits_iff` --- they are the members of the language that the text begins with;
* `Regular.first?` --- the first way behind which the rest fits;
* `Pattern.regular`, `Pattern.language_regular` --- the expressions of the shapes of lexemes;
* `Pattern.head?_splits_regular` --- what is split off is the match;
* `Pattern.exists_group_of_mem_splits` --- what a string stands for is read from the group between
  its quotes.
-/

open scoped Computability

namespace CircuitText

/-- A regular expression whose ways to match are ordered. -/
inductive Regular where
  /-- One character of a class. -/
  | one (p : Char → Bool)
  /-- Nothing. -/
  | empty
  /-- One expression and then another. -/
  | append (first second : Regular)
  /-- One of two expressions, the first being preferred. -/
  | either (first second : Regular)
  /-- An expression any number of times, more often being preferred. -/
  | many (e : Regular)

namespace Regular

/-- Puts `text` in front of what was taken. -/
def prepend (text : List Char) (found : List Char × List Char) : List Char × List Char :=
  (text ++ found.1, found.2)

@[simp] theorem prepend_nil : prepend [] = id := rfl

theorem prepend_comp (text more : List Char) :
    prepend text ∘ prepend more = prepend (text ++ more) :=
  funext fun _ => Prod.ext (List.append_assoc _ _ _).symm rfl

/-- The ways to take parts off a text any number of times, the ways with more parts first.
No part is empty, so the repetition ends. -/
def repeats (take : List Char → List (List Char × List Char)) (cs : List Char) :
    List (List Char × List Char) :=
  ((take cs).flatMap fun found =>
    if found.2.length < cs.length then (repeats take found.2).map (prepend found.1) else []) ++
    [([], cs)]
termination_by cs.length

/-- The ways to split a text into a part that matches and the rest, in the order in which they are
tried. -/
def splits : Regular → List Char → List (List Char × List Char)
  | .one _, [] => []
  | .one p, c :: cs => if p c then [([c], cs)] else []
  | .empty, cs => [([], cs)]
  | .append first second, cs =>
    (splits first cs).flatMap fun found => (splits second found.2).map (prepend found.1)
  | .either first second, cs => splits first cs ++ splits second cs
  | .many e, cs => repeats (splits e) cs

/-- The texts that match, wherever they stand. -/
def language : Regular → Language Char
  | .one p => Pattern.single p
  | .empty => 1
  | .append first second => language first * language second
  | .either first second => language first + language second
  | .many e => (language e)∗

/-! ### Expressions that others are built from -/

/-- The character `c`. -/
def char (c : Char) : Regular := .one (· == c)

/-- These characters. -/
def word : List Char → Regular
  | [] => .empty
  | c :: cs => .append (char c) (word cs)

/-- An expression that may be left out. -/
def optional (e : Regular) : Regular := .either e .empty

/-- An expression once or more. -/
def atLeastOnce (e : Regular) : Regular := .append e (.many e)

variable {e first second : Regular} {p : Char → Bool} {c d : Char} {cs text rest : List Char}
  {k : List Char → Option (List Char × List Char)}

/-! ## All ways to split a text -/

theorem mem_repeats_step {take : List Char → List (List Char × List Char)}
    {found : List Char × List Char} :
    found ∈ repeats take cs ↔
      (∃ part ∈ take cs, part.2.length < cs.length ∧
        ∃ more ∈ repeats take part.2, prepend part.1 more = found) ∨ found = ([], cs) := by
  rw [repeats]
  simp only [List.mem_append, List.mem_flatMap, List.mem_ite_nil_right, List.mem_map,
    List.mem_singleton]

/-- What is taken off by a repetition is made of parts that may be taken off one by one. -/
theorem mem_repeats_iff {take : List Char → List (List Char × List Char)} {L : Language Char}
    (htake : ∀ {cs text rest}, (text, rest) ∈ take cs ↔ text ++ rest = cs ∧ text ∈ L) :
    (text, rest) ∈ repeats take cs ↔ text ++ rest = cs ∧ text ∈ L∗ := by
  induction hlength : cs.length using Nat.strong_induction_on generalizing cs text with
  | _ n ih =>
  subst hlength
  rw [mem_repeats_step]
  constructor
  · rintro (⟨⟨part, left⟩, hpart, hlt, ⟨more, rest'⟩, hmore, heq⟩ | hnone)
    · obtain ⟨rfl, rfl⟩ := Prod.mk.inj heq
      obtain ⟨rfl, hfirst⟩ := htake.mp hpart
      obtain ⟨rfl, hlater⟩ := (ih _ hlt rfl).mp hmore
      refine ⟨List.append_assoc _ _ _, ?_⟩
      rw [← one_add_mul_kstar]
      exact .inr (Language.append_mem_mul hfirst hlater)
    · obtain ⟨rfl, rfl⟩ := Prod.mk.inj hnone
      exact ⟨rfl, Language.nil_mem_kstar _⟩
  · rintro ⟨rfl, htext⟩
    -- an empty part may be left out, and each other leaves less to split
    obtain ⟨parts, rfl, hparts⟩ := Language.mem_kstar_iff_exists_nonempty.mp htext
    cases parts with
    | nil => exact .inr rfl
    | cons part parts =>
      obtain ⟨⟨hpart, hne⟩, hparts⟩ := List.forall_mem_cons.mp hparts
      have hlt : (parts.flatten ++ rest).length < ((part :: parts).flatten ++ rest).length := by
        have := List.length_pos_iff.mpr hne
        simp only [List.flatten_cons, List.length_append]
        omega
      have hlater : parts.flatten ∈ L∗ :=
        Language.join_mem_kstar fun part hmem => (hparts part hmem).1
      exact .inl ⟨(part, parts.flatten ++ rest), htake.mpr ⟨by simp, hpart⟩, hlt,
        (parts.flatten, rest), (ih _ hlt rfl).mpr ⟨rfl, hlater⟩, rfl⟩

/-- The ways to split a text are the members of the language that the text begins with. -/
theorem mem_splits_iff : (text, rest) ∈ e.splits cs ↔ text ++ rest = cs ∧ text ∈ e.language := by
  induction e generalizing cs text rest with
  | one p =>
    cases cs with
    | nil =>
      refine iff_of_false List.not_mem_nil ?_
      rintro ⟨happend, c, -, rfl⟩
      simp at happend
    | cons c cs =>
      rw [splits]
      split
      · rename_i hc
        rw [List.mem_singleton, Prod.mk.injEq]
        constructor
        · rintro ⟨rfl, rfl⟩
          exact ⟨rfl, c, hc, rfl⟩
        · rintro ⟨happend, d, -, rfl⟩
          obtain ⟨rfl, rfl⟩ := List.cons.inj happend
          exact ⟨rfl, rfl⟩
      · rename_i hc
        refine iff_of_false List.not_mem_nil ?_
        rintro ⟨happend, d, hd, rfl⟩
        obtain ⟨rfl, -⟩ := List.cons.inj happend
        exact hc hd
  | empty =>
    rw [splits, language, Language.mem_one, List.mem_singleton, Prod.mk.injEq]
    exact ⟨fun ⟨htext, hrest⟩ => ⟨by rw [htext, hrest]; rfl, htext⟩,
      fun ⟨happend, htext⟩ => ⟨htext, by rw [← happend, htext]; rfl⟩⟩
  | append first second ihFirst ihSecond =>
    rw [splits, language, List.mem_flatMap, Language.mem_mul]
    constructor
    · rintro ⟨⟨part, left⟩, hpart, hmore⟩
      obtain ⟨⟨more, rest'⟩, hmem, heq⟩ := List.mem_map.mp hmore
      obtain ⟨rfl, rfl⟩ := Prod.mk.inj heq
      obtain ⟨rfl, hfirst⟩ := ihFirst.mp hpart
      obtain ⟨rfl, hsecond⟩ := ihSecond.mp hmem
      exact ⟨List.append_assoc _ _ _, part, hfirst, more, hsecond, rfl⟩
    · rintro ⟨rfl, part, hfirst, more, hsecond, rfl⟩
      exact ⟨(part, more ++ rest), ihFirst.mpr ⟨(List.append_assoc _ _ _).symm, hfirst⟩,
        List.mem_map.mpr ⟨(more, rest), ihSecond.mpr ⟨rfl, hsecond⟩, rfl⟩⟩
  | either first second ihFirst ihSecond =>
    rw [splits, language, List.mem_append, ihFirst, ihSecond, Language.mem_add, and_or_left]
  | many e ih => exact mem_repeats_iff ih

/-! ## The first way behind which the rest fits -/

/-- The rest of what was split, put behind what was found. -/
def extend (k : List Char → Option (List Char × List Char)) (found : List Char × List Char) :
    Option (List Char × List Char) :=
  (k found.2).map (prepend found.1)

/-- The first way to match an expression behind which `k` fits. -/
def first? (e : Regular) (k : List Char → Option (List Char × List Char)) (cs : List Char) :
    Option (List Char × List Char) :=
  (e.splits cs).findSome? (extend k)

/-- What fits wherever it is asked for: nothing is taken. -/
def done (rest : List Char) : Option (List Char × List Char) := some ([], rest)

theorem isSome_done (rest : List Char) : (done rest).isSome := rfl

/-- The match is the first way, whatever is behind it. -/
theorem head?_splits : (e.splits cs).head? = e.first? done cs := by
  rw [first?]
  cases e.splits cs with
  | nil => rfl
  | cons found more => simp [extend, prepend, done]

theorem extend_prepend (found : List Char × List Char) :
    extend k (prepend text found) = (extend k found).map (prepend text) := by
  rw [extend, extend, Option.map_map, prepend_comp]
  rfl

theorem findSome?_extend_map (founds : List (List Char × List Char)) :
    (founds.map (prepend text)).findSome? (extend k) =
      (founds.findSome? (extend k)).map (prepend text) := by
  rw [List.findSome?_map, List.map_findSome?]
  exact congrArg (founds.findSome? ·) (funext extend_prepend)

theorem findSome?_flatMap {α β γ : Type} (f : α → List β) (g : β → Option γ) (as : List α) :
    (as.flatMap f).findSome? g = as.findSome? fun a => (f a).findSome? g := by
  induction as with
  | nil => rfl
  | cons a as ih =>
    rw [List.flatMap_cons, List.findSome?_append, ih, List.findSome?_cons]
    cases (f a).findSome? g <;> rfl

theorem first?_one_nil : (one p).first? k [] = none := rfl

theorem first?_one_cons : (one p).first? k (c :: cs) =
    if p c then (k cs).map (prepend [c]) else none := by
  rw [first?, splits]
  split <;> simp [extend]

theorem first?_empty : empty.first? k cs = k cs := by
  simp [first?, splits, extend]

theorem first?_append : (append first second).first? k cs = first.first? (second.first? k) cs := by
  rw [first?, splits, findSome?_flatMap]
  simp only [findSome?_extend_map]
  rfl

theorem first?_either : (either first second).first? k cs =
    (first.first? k cs).or (second.first? k cs) := by
  rw [first?, splits, List.findSome?_append]
  rfl

/-- A repetition of parts that are not empty goes on with one part more, or stops. -/
theorem splits_many (hnil : [] ∉ e.language) :
    (many e).splits cs = (either (append e (many e)) empty).splits cs := by
  have hparts : ∀ found ∈ e.splits cs, found.2.length < cs.length := by
    rintro ⟨text, rest⟩ hfound
    obtain ⟨rfl, htext⟩ := mem_splits_iff.mp hfound
    have hpos : 0 < text.length := List.length_pos_iff.mpr fun heq => hnil (heq ▸ htext)
    simp [hpos]
  simp only [splits]
  rw [repeats]
  congr 1
  exact List.flatMap_congr fun found hfound => by rw [if_pos (hparts found hfound)]

theorem first?_many (hnil : [] ∉ e.language) :
    (many e).first? k cs = (e.first? ((many e).first? k) cs).or (k cs) := by
  rw [first?, splits_many hnil, ← first?, first?_either, first?_append, first?_empty]

/-! ### Runs of characters -/

theorem nil_notMem_language_one : [] ∉ (one p).language := by
  rintro ⟨c, -, heq⟩
  simp at heq

theorem first?_many_one_nil : (many (one p)).first? k [] = k [] := by
  rw [first?_many nil_notMem_language_one, first?_one_nil, Option.none_or]

theorem first?_many_one_cons : (many (one p)).first? k (c :: cs) =
    (if p c then ((many (one p)).first? k cs).map (prepend [c]) else none).or (k (c :: cs)) := by
  rw [first?_many nil_notMem_language_one, first?_one_cons]

/-- A run is taken as a whole if what comes behind it fits wherever the run ends. -/
theorem first?_many_one (hk : ∀ rest, (k rest).isSome) :
    (many (one p)).first? k cs = (k (cs.dropWhile p)).map (prepend (cs.takeWhile p)) := by
  induction cs with
  | nil => simp [first?_many_one_nil]
  | cons c cs ih =>
    rw [first?_many_one_cons]
    split
    · rename_i hc
      obtain ⟨found, hfound⟩ := Option.isSome_iff_exists.mp (hk (cs.dropWhile p))
      rw [ih, List.takeWhile_cons_of_pos hc, List.dropWhile_cons_of_pos hc, hfound]
      rfl
    · rename_i hc
      rw [List.takeWhile_cons_of_neg hc, List.dropWhile_cons_of_neg hc]
      simp

theorem first?_atLeastOnce_one (hk : ∀ rest, (k rest).isSome) :
    (atLeastOnce (one p)).first? k cs =
      if cs.takeWhile p = [] then none
      else (k (cs.dropWhile p)).map (prepend (cs.takeWhile p)) := by
  rw [atLeastOnce, first?_append]
  cases cs with
  | nil => rfl
  | cons c cs =>
    rw [first?_one_cons, first?_many_one hk]
    split
    · rename_i hc
      rw [List.takeWhile_cons_of_pos hc, List.dropWhile_cons_of_pos hc,
        if_neg (List.cons_ne_nil _ _), Option.map_map, prepend_comp]
      rfl
    · rename_i hc
      rw [List.takeWhile_cons_of_neg hc, if_pos rfl]

theorem first?_char_cons : (char d).first? k (c :: cs) =
    if c = d then (k cs).map (prepend [d]) else none := by
  rw [char, first?_one_cons]
  by_cases hc : c = d
  · simp [hc]
  · simp [hc]

theorem first?_optional : (optional e).first? k cs = (e.first? k cs).or (k cs) := by
  rw [optional, first?_either, first?_empty]

theorem first?_word {chars : List Char} : (word chars).first? k cs =
    if chars.isPrefixOf cs then (k (cs.drop chars.length)).map (prepend chars) else none := by
  induction chars generalizing cs with
  | nil => simp [word, first?_empty]
  | cons d chars ih =>
    rw [word, first?_append]
    cases cs with
    | nil => simp [char, first?_one_nil]
    | cons c cs =>
      rw [first?_char_cons, ih]
      by_cases hc : c = d
      · subst hc
        by_cases hmore : chars.isPrefixOf cs
        · simp [hmore, Option.map_map, prepend_comp]
        · simp [hmore]
      · simp [hc, Ne.symm hc]

end Regular

/-! ## The shapes of lexemes -/

namespace Pattern

open Regular (char)

/-- What the body of a string is made of, the quote with a backslash in front of it being tried
first. -/
def item (quote : Char) : Regular :=
  .either (.append (char '\\') (char quote)) (.one (· != quote))

/-- One digit or more. -/
def numeral : Regular := .atLeastOnce (.one Char.isDigit)

/-- A point with digits behind it, or nothing. -/
def fraction : Regular := .optional (.append (char '.') numeral)

/-- The regular expression of a shape. -/
def regular : Pattern → Regular
  | .number =>
    .append (.optional (.one fun c => c == '-' || c == '+')) (.append numeral fraction)
  | .string quote => .append (char quote) (.append (.many (item quote)) (char quote))
  | .word => .append (.one startsWord) (.many (.one continuesWord))
  | .symbol first more => .word (first :: more)

variable {c quote : Char} {cs text rest : List Char}

/-! ### Numbers -/

theorem first?_fraction : fraction.first? Regular.done cs = some (splitFraction cs) := by
  rw [fraction, Regular.first?_optional, Regular.first?_append]
  cases cs with
  | nil => rfl
  | cons c cs =>
    rw [Regular.first?_char_cons, numeral, Regular.first?_atLeastOnce_one Regular.isSome_done,
      splitFraction]
    by_cases hc : c = '.'
    · by_cases hdigits : cs.takeWhile Char.isDigit = []
      · simp [hc, hdigits, Regular.done]
      · simp [hc, hdigits, Regular.done, Regular.prepend]
    · simp [hc, Regular.done]

theorem first?_unsigned : (Regular.append numeral fraction).first? Regular.done cs =
    if cs.takeWhile Char.isDigit = [] then none
    else some (Regular.prepend (cs.takeWhile Char.isDigit)
      (splitFraction (cs.dropWhile Char.isDigit))) := by
  rw [Regular.first?_append, numeral, Regular.first?_atLeastOnce_one (by simp [first?_fraction]),
    first?_fraction, Option.map_some]

theorem first?_number : (regular .number).first? Regular.done cs = splitNumber? cs := by
  rw [regular, Regular.first?_append, Regular.first?_optional, first?_unsigned]
  cases cs with
  | nil => rfl
  | cons c cs =>
    rw [Regular.first?_one_cons, first?_unsigned, splitNumber?, splitSign]
    by_cases hsign : c = '-' ∨ c = '+'
    · -- a sign is no digit, so without it there would be no number
      have hdigit : c.isDigit = false := by rcases hsign with rfl | rfl <;> rfl
      by_cases hdigits : cs.takeWhile Char.isDigit = []
      · simp [hsign, hdigit, hdigits]
      · simp [hsign, hdigit, hdigits, Regular.prepend]
    · by_cases hdigits : (c :: cs).takeWhile Char.isDigit = []
      · simp [hsign, hdigits]
      · simp [hsign, hdigits, Regular.prepend]

/-! ### Strings -/

/-- The match of the pattern of strings behind the opening quote. -/
def closing? (quote : Char) : List Char → Option (List Char × List Char) :=
  (Regular.append (.many (item quote)) (char quote)).first? Regular.done

theorem nil_notMem_language_item : [] ∉ (item quote).language := by
  rintro (h | h)
  · obtain ⟨-, ⟨c, -, rfl⟩, more, -, heq⟩ := Language.mem_mul.mp h
    simp at heq
  · exact Regular.nil_notMem_language_one h

/-- Behind the opening quote one item more is taken, if the string can be closed then, or the string
is closed at once. -/
theorem closing?_eq : closing? quote cs = ((item quote).first? (closing? quote) cs).or
    ((char quote).first? Regular.done cs) := by
  have hmany : closing? quote =
      (Regular.many (item quote)).first? ((char quote).first? Regular.done) :=
    funext fun _ => Regular.first?_append
  rw [hmany, Regular.first?_many nil_notMem_language_item]

theorem closing?_nil : closing? quote [] = none := by
  rw [closing?_eq]
  rfl

theorem closing?_quote (hquote : quote ≠ '\\') :
    closing? quote (quote :: cs) = some ([quote], cs) := by
  rw [closing?_eq, item, Regular.first?_either, Regular.first?_append, Regular.first?_char_cons,
    Regular.first?_one_cons, Regular.first?_char_cons]
  simp [hquote, Regular.done, Regular.prepend]

/-- The match behind a character that is no quote.  Behind a backslash a quote may be taken together
with it, and that is tried first. -/
def resume? (quote : Char) (afterBackslash : Bool) (cs : List Char) :
    Option (List Char × List Char) :=
  if afterBackslash then ((char quote).first? (closing? quote) cs).or (closing? quote cs)
  else closing? quote cs

theorem closing?_cons (hc : c ≠ quote) : closing? quote (c :: cs) =
    (resume? quote (c = '\\') cs).map (Regular.prepend [c]) := by
  rw [closing?_eq, item, Regular.first?_either, Regular.first?_append, Regular.first?_char_cons,
    Regular.first?_one_cons, Regular.first?_char_cons, resume?]
  by_cases hbackslash : c = '\\'
  · subst hbackslash
    simp [hc, Option.map_or]
  · simp [hc, hbackslash]

theorem resume?_nil (afterBackslash : Bool) : resume? quote afterBackslash [] = none := by
  cases afterBackslash with
  | false => exact closing?_nil
  | true =>
    rw [resume?, if_pos rfl, closing?_nil]
    rfl

theorem resume?_quote (hquote : quote ≠ '\\') : resume? quote true (quote :: cs) =
    ((closing? quote cs).map (Regular.prepend [quote])).or (some ([quote], cs)) := by
  rw [resume?, if_pos rfl, Regular.first?_char_cons, if_pos rfl, closing?_quote hquote]

theorem resume?_cons (hc : c ≠ quote) (afterBackslash : Bool) :
    resume? quote afterBackslash (c :: cs) = closing? quote (c :: cs) := by
  cases afterBackslash with
  | false => rfl
  | true => rw [resume?, if_pos rfl, Regular.first?_char_cons, if_neg hc, Option.none_or]

/-- The flag of the scan stands for the alternatives at a backslash. -/
theorem splitString?_eq_resume? (hquote : quote ≠ '\\') (afterBackslash : Bool) :
    splitString? quote afterBackslash cs = resume? quote afterBackslash cs := by
  induction cs generalizing afterBackslash with
  | nil => rw [resume?_nil, splitString?]
  | cons c cs ih =>
    rw [splitString?, ih, ih]
    by_cases hc : c = quote
    · subst hc
      cases afterBackslash with
      | false => simp [resume?, closing?_quote hquote]
      | true =>
        rw [resume?_quote hquote]
        cases h : closing? c cs <;> simp [resume?, h, Regular.prepend]
    · rw [if_neg hc, resume?_cons hc, closing?_cons hc]
      cases h : resume? quote (c = '\\') cs <;> rfl

/-! ### All shapes -/

/-- What is split off is the match of the regular expression. -/
theorem head?_splits_regular {sort : LexemeSort} (hsort : sort ∈ lexemes) :
    (sort.pattern.regular.splits cs).head? = sort.pattern.split? cs := by
  obtain ⟨pattern, k⟩ := sort
  rw [Regular.head?_splits]
  cases pattern with
  | number => exact first?_number
  | string quote =>
    have hquote := Lexeme.ne_backslash (Lexeme.quote_of_mem_lexemes hsort).1
    rw [regular, Regular.first?_append, ← closing?]
    cases cs with
    | nil => rfl
    | cons c cs =>
      rw [Regular.first?_char_cons, split?, splitString?_eq_resume? hquote]
      by_cases hc : c = quote
      · rw [if_pos hc, if_pos hc, hc]
        rfl
      · rw [if_neg hc, if_neg hc]
  | word =>
    rw [regular, Regular.first?_append]
    cases cs with
    | nil => rfl
    | cons c cs =>
      rw [Regular.first?_one_cons, Regular.first?_many_one Regular.isSome_done, split?]
      simp [Regular.done, Regular.prepend]
  | symbol first more =>
    rw [regular, Regular.first?_word]
    cases cs with
    | nil => rfl
    | cons c cs =>
      by_cases hc : c = first
      · simp [split?, Regular.done, Regular.prepend, hc]
      · simp [split?, hc, Ne.symm hc]

/-- Both later quotes may close the string; the last of them is tried first. -/
example : (regular (.string '"')).splits "\"\\\"\"".toList =
    [("\"\\\"\"".toList, []), ("\"\\\"".toList, ['"'])] := by cbv

theorem language_char : (char c).language = {[c]} := by
  ext text
  simp [char, Regular.language, mem_single, mem_singleton]

theorem singleton_mul_singleton (front back : List Char) :
    ({front} * {back} : Language Char) = {front ++ back} := by
  ext text
  simp [Language.mem_mul, mem_singleton, eq_comm]

theorem language_word {chars : List Char} : (Regular.word chars).language = {chars} := by
  induction chars with
  | nil => rfl
  | cons c chars ih =>
    rw [Regular.word, Regular.language, language_char, ih, singleton_mul_singleton]
    rfl

/-- The language of a shape is that of its regular expression. -/
theorem language_regular (pattern : Pattern) : pattern.regular.language = pattern.language := by
  cases pattern with
  | number =>
    simp only [regular, fraction, numeral, language, Regular.language, Regular.optional,
      Regular.atLeastOnce, language_char, digits, add_comm]
  | string quote =>
    simp only [regular, language, Regular.language, language_char, item, bodies,
      singleton_mul_singleton, List.singleton_append]
  | word => rfl
  | symbol first more => exact language_word

/-- A string stands for what its group holds, the part between the quotes. -/
theorem exists_group_of_mem_splits (h : (text, rest) ∈ (regular (.string quote)).splits cs) :
    ∃ body, cs = quote :: (body ++ quote :: rest) ∧
      (body, quote :: rest) ∈ (Regular.many (item quote)).splits (body ++ quote :: rest) ∧
      literal (.string quote) text = Text.unescape body := by
  obtain ⟨rfl, htext⟩ := Regular.mem_splits_iff.mp h
  rw [regular, Regular.language, Regular.language, language_char] at htext
  obtain ⟨-, rfl, -, ⟨body, hbody, -, rfl, rfl⟩, rfl⟩ := htext
  exact ⟨body, by simp, Regular.mem_splits_iff.mpr ⟨rfl, hbody⟩, by simp [literal]⟩

end Pattern
end CircuitText
