import CircuitText.Proofs.Lexing.Closing
import Mathlib.Computability.Language

/-!
# Patterns as languages

What may be split off by a pattern at all is a language: the texts that are put together from single
characters, alternatives and repetitions as the pattern says, wherever they stand.  What is split
off in front of a given text is one member of the language, and it is the longest that the text
begins with.  For numbers and words this is how runs are taken.  For strings it is not how the
closing quote is found, which is the first that may close the string whenever there is such a one;
but a body goes on over a quote only behind a backslash, so no member of the language goes on over
that quote, and where every quote stands behind a backslash the last of them is taken.

* `Pattern.language` --- the texts that belong to a pattern;
* `Pattern.mem_bodies` --- the bodies of strings, with the predicate that the scan is described by;
* `IsLongest` --- the longest member of a language at the front of a text;
* `Pattern.split?_eq_some_iff_isLongest` --- it is what is split off.
-/

open scoped Computability

namespace CircuitText

/-- The longest member of a language that a text begins with. -/
structure IsLongest (L : Language Char) (cs text : List Char) : Prop where
  mem : text ∈ L
  front : text <+: cs
  longest : ∀ other ∈ L, other <+: cs → other.length ≤ text.length

/-- There is one longest member at most. -/
theorem IsLongest.unique {L : Language Char} {cs text text' : List Char} (h : IsLongest L cs text)
    (h' : IsLongest L cs text') : text = text' := by
  have hlength : text.length = text'.length :=
    Nat.le_antisymm (h'.longest text h.mem h.front) (h.longest text' h'.mem h'.front)
  exact (List.prefix_of_prefix_length_le h.front h'.front hlength.le).eq_of_length hlength

namespace Pattern

/-! ## The languages -/

/-- The texts of a single character of a class. -/
def single (p : Char → Bool) : Language Char := {text | ∃ c, p c = true ∧ text = [c]}

/-- One digit or more. -/
def digits : Language Char := single Char.isDigit * (single Char.isDigit)∗

/-- What may stand between two quotes: the quote only behind a backslash, any other character
freely. -/
def bodies (quote : Char) : Language Char := ({['\\', quote]} + single (· != quote))∗

/-- The texts that belong to a pattern. -/
def language : Pattern → Language Char
  | .number => (1 + single fun c => c == '-' || c == '+') * (digits * (1 + {['.']} * digits))
  | .string quote => {[quote]} * (bodies quote * {[quote]})
  | .word => single startsWord * (single continuesWord)∗
  | .symbol first more => {first :: more}

variable {p : Char → Bool} {c quote prev : Char} {cs text rest body more : List Char}

theorem mem_single : text ∈ single p ↔ ∃ c, p c = true ∧ text = [c] := Iff.rfl

theorem mem_singleton {word : List Char} : text ∈ ({word} : Language Char) ↔ text = word := Iff.rfl

/-- Repeating single characters of a class gives the texts of such characters. -/
theorem mem_kstar_single : text ∈ (single p)∗ ↔ ∀ c ∈ text, p c = true := by
  constructor
  · rintro h c hc
    obtain ⟨parts, rfl, hparts⟩ := Language.mem_kstar.mp h
    obtain ⟨part, hpart, hc⟩ := List.mem_flatten.mp hc
    obtain ⟨d, hd, rfl⟩ := hparts part hpart
    rwa [List.mem_singleton.mp hc]
  · intro h
    have hflatten : text = (text.map fun c => [c]).flatten := by
      rw [← List.flatMap_def, List.flatMap_singleton']
    rw [hflatten]
    refine Language.join_mem_kstar fun part hpart => ?_
    obtain ⟨c, hc, rfl⟩ := List.mem_map.mp hpart
    exact ⟨c, h c hc, rfl⟩

theorem mem_run {q : Char → Bool} : text ∈ single p * (single q)∗ ↔
    ∃ c cs, text = c :: cs ∧ p c = true ∧ ∀ d ∈ cs, q d = true := by
  rw [Language.mem_mul]
  constructor
  · rintro ⟨-, ⟨c, hc, rfl⟩, cs, hcs, rfl⟩
    exact ⟨c, cs, rfl, hc, mem_kstar_single.mp hcs⟩
  · rintro ⟨c, cs, rfl, hc, hcs⟩
    exact ⟨[c], ⟨c, hc, rfl⟩, cs, mem_kstar_single.mpr hcs, rfl⟩

theorem mem_digits : text ∈ digits ↔ text ≠ [] ∧ ∀ c ∈ text, c.isDigit = true := by
  rw [digits, mem_run]
  cases text with
  | nil => simp
  | cons c cs => simp

/-- The numbers are a sign, digits and a fraction, the first and the last of which may be left
out. -/
theorem mem_language_number : text ∈ language .number ↔
    ∃ sign whole fraction, (sign = [] ∨ sign = ['-'] ∨ sign = ['+']) ∧ whole ≠ [] ∧
      (∀ c ∈ whole, c.isDigit = true) ∧
      (fraction = [] ∨ ∃ ds, fraction = '.' :: ds ∧ ds ≠ [] ∧ ∀ c ∈ ds, c.isDigit = true) ∧
      text = sign ++ (whole ++ fraction) := by
  simp only [language, Language.mem_mul, Language.mem_add, Language.mem_one, mem_single,
    mem_singleton, mem_digits]
  constructor
  · rintro ⟨sign, hsign, -, ⟨whole, ⟨hne, hwhole⟩, fraction, hfraction, rfl⟩, rfl⟩
    refine ⟨sign, whole, fraction, ?_, hne, hwhole, ?_, rfl⟩
    · rcases hsign with rfl | ⟨c, hc, rfl⟩
      · exact .inl rfl
      · simpa using hc
    · rcases hfraction with rfl | ⟨-, rfl, ds, ⟨hds, hall⟩, rfl⟩
      · exact .inl rfl
      · exact .inr ⟨ds, rfl, hds, hall⟩
  · rintro ⟨sign, whole, fraction, hsign, hne, hwhole, hfraction, rfl⟩
    refine ⟨sign, ?_, _, ⟨whole, ⟨hne, hwhole⟩, fraction, ?_, rfl⟩, rfl⟩
    · rcases hsign with rfl | rfl | rfl
      · exact .inl rfl
      · exact .inr ⟨'-', rfl, rfl⟩
      · exact .inr ⟨'+', rfl, rfl⟩
    · rcases hfraction with rfl | ⟨ds, rfl, hds, hall⟩
      · exact .inl rfl
      · exact .inr ⟨['.'], rfl, ds, ⟨hds, hall⟩, rfl⟩

/-! ### Bodies of strings -/

theorem nil_mem_bodies : [] ∈ bodies quote := Language.nil_mem_kstar _

theorem append_mem_bodies {part : List Char}
    (hpart : part = ['\\', quote] ∨ ∃ c, c ≠ quote ∧ part = [c]) (h : body ∈ bodies quote) :
    part ++ body ∈ bodies quote := by
  obtain ⟨parts, rfl, hparts⟩ := Language.mem_kstar.mp h
  rw [← List.flatten_cons]
  refine Language.join_mem_kstar (List.forall_mem_cons.mpr ⟨?_, hparts⟩)
  rcases hpart with rfl | ⟨c, hc, rfl⟩
  · exact .inl rfl
  · exact .inr ⟨c, by simpa using hc, rfl⟩

/-- Behind a quote there is no quote at once, so any other character may stand in its place. -/
theorem Masked.of_quote (hquote : quote ≠ '\\') (h : Masked quote quote cs) :
    Masked quote prev cs := by
  cases cs with
  | nil => exact masked_of_notMem (by simp)
  | cons c cs =>
    obtain ⟨hc, hcs⟩ := masked_cons.mp h
    exact masked_cons.mpr ⟨fun heq => absurd (hc heq) hquote, hcs⟩

/-- A text whose quotes all stand behind a backslash is put together from pairs and other
characters.  If the character in front is a backslash it may be the first of a pair, so it is then
counted in. -/
theorem mem_bodies_of_masked (hquote : quote ≠ '\\') (h : Masked quote prev cs) :
    (prev ≠ '\\' → cs ∈ bodies quote) ∧ (prev = '\\' → prev :: cs ∈ bodies quote) := by
  induction cs generalizing prev with
  | nil =>
    refine ⟨fun _ => nil_mem_bodies, fun hprev => ?_⟩
    exact append_mem_bodies (.inr ⟨prev, hprev ▸ hquote.symm, rfl⟩) nil_mem_bodies
  | cons c cs ih =>
    obtain ⟨hc, hcs⟩ := masked_cons.mp h
    have hother : c ≠ quote → c :: cs ∈ bodies quote := by
      intro hne
      by_cases hbackslash : c = '\\'
      · exact (ih hcs).2 hbackslash
      · exact append_mem_bodies (.inr ⟨c, hne, rfl⟩) ((ih hcs).1 hbackslash)
    refine ⟨fun hprev => hother fun heq => hprev (hc heq), ?_⟩
    rintro rfl
    by_cases hne : c = quote
    · subst hne
      exact append_mem_bodies (.inl rfl) ((ih hcs).1 hquote)
    · exact append_mem_bodies (.inr ⟨'\\', hquote.symm, rfl⟩) (hother hne)

/-- A body is a text whose quotes all stand behind a backslash. -/
theorem mem_bodies (hquote : quote ≠ '\\') : body ∈ bodies quote ↔ Masked quote quote body := by
  refine ⟨fun h => ?_, fun h => (mem_bodies_of_masked hquote h).1 hquote⟩
  obtain ⟨parts, rfl, hparts⟩ := Language.mem_kstar.mp h
  clear h
  induction parts with
  | nil => exact masked_of_notMem (by simp)
  | cons part parts ih =>
    obtain ⟨hpart, htail⟩ := List.forall_mem_cons.mp hparts
    have hmasked := ih htail
    rw [List.flatten_cons]
    rcases hpart with rfl | ⟨c, hc, rfl⟩
    · exact masked_cons.mpr ⟨fun heq => absurd heq.symm hquote,
        masked_cons.mpr ⟨fun _ => rfl, hmasked⟩⟩
    · exact masked_cons.mpr ⟨fun heq => absurd heq (by simpa using hc), hmasked.of_quote hquote⟩

theorem mem_language_string (hquote : quote ≠ '\\') : text ∈ language (.string quote) ↔
    ∃ body, text = quote :: (body ++ [quote]) ∧ Masked quote quote body := by
  simp only [language, Language.mem_mul, mem_singleton, mem_bodies hquote]
  constructor
  · rintro ⟨-, rfl, -, ⟨body, hbody, -, rfl, rfl⟩, rfl⟩
    exact ⟨body, rfl, hbody⟩
  · rintro ⟨body, rfl, hbody⟩
    exact ⟨[quote], rfl, _, ⟨body, hbody, [quote], rfl, rfl⟩, rfl⟩

/-! ## What is split off -/

/-- What is split off belongs to the pattern. -/
theorem mem_language_of_split? {sort : LexemeSort} (hsort : sort ∈ lexemes)
    (h : sort.pattern.split? cs = some (text, rest)) : text ∈ sort.pattern.language := by
  obtain ⟨pattern, k⟩ := sort
  cases pattern with
  | number => exact mem_language_number.mpr (Lexeme.spells_number h).exists_parts
  | string quote =>
    have hne := Lexeme.ne_backslash (Lexeme.quote_of_mem_lexemes hsort).1
    cases cs with
    | nil => simp [split?] at h
    | cons c cs =>
      simp only [split?] at h
      split at h
      · rename_i hc
        obtain ⟨⟨found, after⟩, hfound, heq⟩ := Option.map_eq_some_iff.mp h
        obtain ⟨rfl, rfl⟩ := Prod.mk.inj heq
        obtain ⟨body, rfl⟩ := Lexeme.exists_body_of_splitString? hfound
        rw [← decide_eq_false hne, splitString?_eq_some_iff hne] at hfound
        exact (mem_language_string hne).mpr ⟨body, by rw [hc], hfound.2.masked_body⟩
      · simp at h
  | word =>
    cases cs with
    | nil => simp [split?] at h
    | cons c cs =>
      simp only [split?] at h
      split at h
      · rename_i hc
        obtain ⟨rfl, -⟩ := Prod.mk.inj (Option.some.inj h)
        exact mem_run.mpr ⟨c, _, rfl, hc, fun d hd => Text.of_mem_takeWhile hd⟩
      · simp at h
  | symbol first more =>
    cases cs with
    | nil => simp [split?] at h
    | cons c cs =>
      simp only [split?] at h
      split at h
      · obtain ⟨rfl, -⟩ := Prod.mk.inj (Option.some.inj h)
        exact rfl
      · simp at h

/-- Where a text begins with a number, at least that number is split off. -/
theorem exists_splitNumber?_of_mem (h : text ∈ language .number) (more : List Char) :
    ∃ found rest, splitNumber? (text ++ more) = some (found, rest) ∧
      text.length ≤ found.length := by
  obtain ⟨sign, whole, fraction, hsign, hne, hwhole, hfraction, rfl⟩ := mem_language_number.mp h
  have hsplit := splitSign_append_digits hsign hne hwhole (fraction ++ more)
  rw [List.append_assoc, List.append_assoc, splitNumber?, hsplit]
  rcases hfraction with rfl | ⟨ds, rfl, hds, hall⟩
  · have hrun : (whole ++ more).takeWhile Char.isDigit ≠ [] := by
      rw [List.takeWhile_append_of_pos hwhole]
      simp [hne]
    simp only [List.nil_append, if_neg hrun]
    refine ⟨_, _, rfl, ?_⟩
    rw [List.takeWhile_append_of_pos hwhole]
    simp only [List.length_append, List.length_nil]
    omega
  · have hstops : Text.Stops Char.isDigit ('.' :: (ds ++ more)) :=
      Text.stops_cons.mpr (by decide)
    have hrun : (ds ++ more).takeWhile Char.isDigit ≠ [] := by
      rw [List.takeWhile_append_of_pos hall]
      simp [hds]
    have hpoint : splitFraction ('.' :: (ds ++ more)) =
        ('.' :: (ds ++ more).takeWhile Char.isDigit, (ds ++ more).dropWhile Char.isDigit) := by
      simp only [splitFraction, hrun, ne_eq, not_false_eq_true, and_true, if_true]
    simp only [List.cons_append, Text.takeWhile_run hwhole hstops,
      Text.dropWhile_run hwhole hstops, if_neg hne, hpoint]
    refine ⟨_, _, rfl, ?_⟩
    rw [List.takeWhile_append_of_pos hall]
    simp only [List.length_append, List.length_cons]
    omega

/-- Where a text begins with a string, at least that string is split off: the closing quote is not
before the end of it, since a quote behind a backslash closes only if there is no later one. -/
theorem exists_splitString?_of_mem (hquote : quote ≠ '\\') (hbody : Masked quote quote body)
    (more : List Char) :
    ∃ found rest, splitString? quote false (body ++ quote :: more) = some (found ++ [quote], rest) ∧
      body.length ≤ found.length := by
  have hmem : quote ∈ body ++ quote :: more := List.mem_append_right body List.mem_cons_self
  obtain ⟨found, rest, hsplit, hcloses⟩ : ∃ found rest,
      body ++ quote :: more = found ++ quote :: rest ∧ Closes quote quote found rest :=
    exists_closes hquote hmem
  refine ⟨found, rest, ?_, ?_⟩
  · rw [← decide_eq_false hquote]
    exact (splitString?_eq_some_iff hquote).mpr ⟨hsplit, hcloses⟩
  · by_contra hlt
    obtain ⟨between, rfl, hrest⟩ : ∃ between, body = found ++ quote :: between ∧
        rest = between ++ quote :: more := by
      rcases List.append_eq_append_iff.mp hsplit with ⟨tail, rfl, -⟩ | ⟨tail, rfl, htail⟩
      · simp at hlt
      · cases tail with
        | nil => simp at hlt
        | cons d tail =>
          obtain ⟨rfl, hrest⟩ := List.cons.inj htail
          exact ⟨tail, rfl, hrest⟩
    rcases hcloses with ⟨-, hlast⟩ | ⟨-, hnone⟩
    · exact hlast (hbody found between rfl)
    · exact hnone (by simp [hrest])

/-- Where a text begins with a member of the language, a member at least as long is split off. -/
theorem exists_split?_of_mem {sort : LexemeSort} (hsort : sort ∈ lexemes)
    (h : text ∈ sort.pattern.language) (more : List Char) :
    ∃ found rest, sort.pattern.split? (text ++ more) = some (found, rest) ∧
      text.length ≤ found.length := by
  obtain ⟨pattern, k⟩ := sort
  cases pattern with
  | number => exact exists_splitNumber?_of_mem h more
  | string quote =>
    have hne := Lexeme.ne_backslash (Lexeme.quote_of_mem_lexemes hsort).1
    obtain ⟨body, rfl, hbody⟩ := (mem_language_string hne).mp h
    obtain ⟨found, rest, hfound, hle⟩ := exists_splitString?_of_mem hne hbody more
    refine ⟨quote :: (found ++ [quote]), rest, ?_, by simpa using hle⟩
    simp only [List.cons_append, List.append_assoc, List.nil_append, split?, if_true, hfound,
      Option.map_some]
  | word =>
    obtain ⟨c, cs, rfl, hc, hcs⟩ := mem_run.mp h
    refine ⟨c :: (cs ++ more).takeWhile continuesWord, (cs ++ more).dropWhile continuesWord, ?_, ?_⟩
    · simp only [List.cons_append, split?, hc, if_true]
    · rw [List.takeWhile_append_of_pos hcs]
      simp
  | symbol first tail =>
    obtain rfl : text = first :: tail := h
    refine ⟨first :: tail, more, ?_, le_rfl⟩
    simp [split?]

/-- What is split off is the longest member of the language that the text begins with. -/
theorem split?_eq_some_iff_isLongest {sort : LexemeSort} (hsort : sort ∈ lexemes) :
    sort.pattern.split? cs = some (text, rest) ↔
      text ++ rest = cs ∧ IsLongest sort.pattern.language cs text := by
  have hlongest : ∀ {found rest}, sort.pattern.split? cs = some (found, rest) →
      IsLongest sort.pattern.language cs found := by
    intro found rest h
    refine ⟨mem_language_of_split? hsort h, ⟨rest, append_of_split? h⟩, ?_⟩
    rintro other hother ⟨more, rfl⟩
    obtain ⟨found', rest', h', hle⟩ := exists_split?_of_mem hsort hother more
    rw [h] at h'
    obtain ⟨rfl, rfl⟩ := Prod.mk.inj (Option.some.inj h')
    exact hle
  refine ⟨fun h => ⟨append_of_split? h, hlongest h⟩, ?_⟩
  rintro ⟨rfl, h⟩
  obtain ⟨found, rest', hfound, -⟩ := exists_split?_of_mem hsort h.mem rest
  obtain rfl := h.unique (hlongest hfound)
  rw [hfound, List.append_cancel_left (append_of_split? hfound)]

end Pattern
end CircuitText
