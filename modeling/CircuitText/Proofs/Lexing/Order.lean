import CircuitText.Proofs.Lexing.Appending
import CircuitText.Proofs.Lexing.Longest
import Mathlib.Data.List.MinMax

/-!
# The order of the sorts

The sorts of lexeme are tried in order, but the order decides nothing.  The first character of a
text tells which sort can stand there, or the first two where a sign may belong to a number or to
an arrow.  So one sort fits at most, and it makes no difference in which order the sorts are listed,
nor by which rule one of the lexemes that fit is chosen.

* `LexemeSort.Fits` --- a text begins with a member of the language of a sort;
* `Front`, `LexemeSort.front_of_fits` --- what the first characters tell;
* `LexemeSort.eq_of_fits` --- one sort fits at most;
* `Lexeme.Choice` --- a rule by which one of several lexemes is chosen, `Choice.first` and
  `Choice.longest` among them;
* `Lexeme.readAs_eq_read`, `Lexer.drainBy_eq_drain` --- all of them choose alike.
-/

namespace CircuitText

/-! ## One sort at most -/

/-- Some text of the pattern stands at the front. -/
def LexemeSort.Fits (sort : LexemeSort) (cs : List Char) : Prop :=
  ∃ text ∈ sort.pattern.language, text <+: cs

/-- What the front of a text tells about the lexeme that can stand there. -/
inductive Front where
  | number
  | word
  /-- A quote, or the first character of a symbol. -/
  | mark (c : Char)
  deriving DecidableEq, Repr

/-- The front of a text that is not empty.  A sign is part of a number if a digit follows it. -/
def Front.of (c : Char) (cs : List Char) : Front :=
  if startsWord c then .word
  else if c.isDigit ∨ (c = '-' ∨ c = '+') ∧ cs.head?.any Char.isDigit then .number
  else .mark c

/-- The front that the lexemes of a pattern have. -/
def Pattern.front : Pattern → Front
  | .number => .number
  | .string quote => .mark quote
  | .word => .word
  | .symbol first _ => .mark first

namespace LexemeSort

variable {sort sort' : LexemeSort} {c : Char} {cs : List Char}

theorem fits_iff (hsort : sort ∈ lexemes) :
    sort.Fits cs ↔ ∃ text rest, sort.pattern.split? cs = some (text, rest) := by
  constructor
  · rintro ⟨text, htext, rest, rfl⟩
    obtain ⟨found, rest, hfound, -⟩ := Pattern.exists_split?_of_mem hsort htext rest
    exact ⟨found, rest, hfound⟩
  · rintro ⟨text, rest, h⟩
    exact ⟨text, Pattern.mem_language_of_split? hsort h, rest, Pattern.append_of_split? h⟩

/-- No two sorts have the same front. -/
theorem eq_of_front_eq (hsort : sort ∈ lexemes) (hsort' : sort' ∈ lexemes)
    (h : sort.pattern.front = sort'.pattern.front) : sort = sort' := by
  have hall : ∀ s ∈ lexemes, ∀ t ∈ lexemes, s.pattern.front = t.pattern.front → s = t := by decide
  exact hall sort hsort sort' hsort' h

/-- Numbers begin with a digit, or with a sign and a digit. -/
theorem front_of_number {text : List Char} (h : text ∈ Pattern.number.language)
    (hbegins : text <+: c :: cs) : Front.of c cs = .number := by
  obtain ⟨sign, whole, fraction, hsign, hne, hwhole, -, rfl⟩ := Pattern.mem_language_number.mp h
  obtain ⟨d, ds, rfl⟩ := List.exists_cons_of_ne_nil hne
  have hd : d.isDigit = true := hwhole d List.mem_cons_self
  have hsigned : ∀ s : Char, s = '-' ∨ s = '+' → [s] ++ (d :: ds ++ fraction) <+: c :: cs →
      Front.of c cs = .number := by
    rintro s hs ⟨rest, heq⟩
    obtain ⟨rfl, rfl⟩ := List.cons.inj heq
    have hlow : startsWord s = false := startsWord_eq_false (by rcases hs with rfl | rfl <;> decide)
    simp [Front.of, hlow, hs, hd]
  rcases hsign with rfl | rfl | rfl
  · obtain ⟨rest, heq⟩ := hbegins
    obtain ⟨rfl, -⟩ := List.cons.inj heq
    have hlow := (Char.isDigit_iff_toNat.mp hd).2
    simp [Front.of, startsWord_eq_false (Nat.lt_of_le_of_lt hlow (by decide)), hd]
  · exact hsigned '-' (.inl rfl) hbegins
  · exact hsigned '+' (.inr rfl) hbegins

/-- No word begins with a character of a symbol. -/
theorem startsWord_of_mem_characters (hsort : sort ∈ lexemes) :
    ∀ d ∈ sort.pattern.characters, startsWord d = false := by
  have hsymbols : lexemes.all (fun sort => sort.pattern.characters.all fun d =>
      Text.signs.contains d || d.toNat < 0x80 && !(d.isAlpha || d == '_')) = true := by decide
  intro d hd
  have hsymbol := List.all_eq_true.mp (List.all_eq_true.mp hsymbols sort hsort) d hd
  rcases Bool.or_eq_true_iff.mp hsymbol with hsign | hascii
  · exact startsWord_of_mem_signs (List.contains_iff_mem.mp hsign)
  · rw [Bool.and_eq_true, decide_eq_true_eq, Bool.not_eq_true'] at hascii
    rw [startsWord_of_ascii hascii.1, hascii.2]

/-- Symbols begin with no digit, and with a sign only if they go on with another character than a
digit. -/
theorem not_isNumber_of_symbol {first : Char} {more : List Char} {k : Kind}
    (hsort : ⟨.symbol first more, k⟩ ∈ lexemes) :
    first.isDigit = false ∧
      (first ≠ '-' ∧ first ≠ '+' ∨ ∃ d ds, more = d :: ds ∧ d.isDigit = false) := by
  have hsymbols : lexemes.all (fun sort => match sort.pattern with
      | .symbol first [] => !first.isDigit && first != '-' && first != '+'
      | .symbol first (d :: _) => !first.isDigit && !d.isDigit
      | .number | .string _ | .word => true) = true := by decide
  have hsymbol := List.all_eq_true.mp hsymbols _ hsort
  cases more with
  | nil =>
    simp only [Bool.and_eq_true, Bool.not_eq_true', bne_iff_ne] at hsymbol
    exact ⟨hsymbol.1.1, .inl ⟨hsymbol.1.2, hsymbol.2⟩⟩
  | cons d more =>
    simp only [Bool.and_eq_true, Bool.not_eq_true'] at hsymbol
    exact ⟨hsymbol.1, .inr ⟨d, more, rfl, hsymbol.2⟩⟩

theorem front_of_symbol {first : Char} {more : List Char} {k : Kind}
    (hsort : ⟨.symbol first more, k⟩ ∈ lexemes) (rest : List Char) :
    Front.of first (more ++ rest) = .mark first := by
  have hword : startsWord first = false :=
    startsWord_of_mem_characters hsort first List.mem_cons_self
  obtain ⟨hdigit, ⟨hminus, hplus⟩ | ⟨d, ds, rfl, hnext⟩⟩ := not_isNumber_of_symbol hsort
  · simp [Front.of, hword, hdigit, hminus, hplus]
  · simp [Front.of, hword, hdigit, hnext]

/-- The front of a text tells which sort fits. -/
theorem front_of_fits (hsort : sort ∈ lexemes) (h : sort.Fits (c :: cs)) :
    Front.of c cs = sort.pattern.front := by
  obtain ⟨text, htext, hbegins⟩ := h
  obtain ⟨pattern, k⟩ := sort
  cases pattern with
  | number => exact front_of_number htext hbegins
  | string quote =>
    have hquote := (Lexeme.quote_of_mem_lexemes hsort).1
    obtain ⟨body, rfl, -⟩ := (Pattern.mem_language_string (Lexeme.ne_backslash hquote)).mp htext
    obtain ⟨rest, heq⟩ := hbegins
    obtain ⟨rfl, -⟩ := List.cons.inj heq
    have hlow : startsWord quote = false :=
      startsWord_eq_false (by rcases hquote with rfl | rfl <;> decide)
    rcases hquote with rfl | rfl <;> simp [Front.of, hlow, Pattern.front]
  | word =>
    obtain ⟨d, ds, rfl, hd, -⟩ := Pattern.mem_run.mp htext
    obtain ⟨rest, heq⟩ := hbegins
    obtain ⟨rfl, -⟩ := List.cons.inj heq
    simp [Front.of, hd, Pattern.front]
  | symbol first more =>
    obtain rfl : text = first :: more := htext
    obtain ⟨rest, heq⟩ := hbegins
    obtain ⟨rfl, rfl⟩ := List.cons.inj heq
    exact front_of_symbol hsort rest

/-- Nothing of any sort stands at the front of the empty text. -/
theorem not_fits_nil (hsort : sort ∈ lexemes) : ¬ sort.Fits [] := by
  rw [fits_iff hsort]
  rintro ⟨text, rest, h⟩
  exact Pattern.ne_nil_of_split? h (List.append_eq_nil_iff.mp (Pattern.append_of_split? h)).1

/-- One sort fits at most. -/
theorem eq_of_fits (hsort : sort ∈ lexemes) (hsort' : sort' ∈ lexemes) (h : sort.Fits cs)
    (h' : sort'.Fits cs) : sort = sort' := by
  cases cs with
  | nil => exact absurd h (not_fits_nil hsort)
  | cons c cs =>
    refine eq_of_front_eq hsort hsort' ?_
    rw [← front_of_fits hsort h, front_of_fits hsort' h']

/-- No two places of the list of sorts fit the same text. -/
theorem pairwise_not_fits (cs : List Char) :
    lexemes.Pairwise fun sort sort' => ¬ (sort.Fits cs ∧ sort'.Fits cs) := by
  have hnodup : lexemes.Nodup := by decide
  refine hnodup.imp_of_mem fun hsort hsort' hne hfits => ?_
  exact hne (eq_of_fits hsort hsort' hfits.1 hfits.2)

end LexemeSort

/-! ## Choosing among the lexemes that fit -/

namespace Lexeme

/-- A rule by which one of several lexemes is chosen: it is one of them, and there is one unless
there are none to choose from. -/
structure Choice where
  select : List Lexeme → Option Lexeme
  mem_of_select : ∀ {xs x}, select xs = some x → x ∈ xs
  eq_nil_of_select : ∀ {xs}, select xs = none → xs = []

/-- The lexeme of the sort that is listed first. -/
def Choice.first : Choice where
  select := List.head?
  mem_of_select := List.mem_of_head?
  eq_nil_of_select := List.head?_eq_none_iff.mp

/-- The longest lexeme. -/
def Choice.longest : Choice where
  select := List.argmax (·.text.length)
  mem_of_select h := List.argmax_mem h
  eq_nil_of_select h := List.argmax_eq_none.mp h

/-- The lexeme at the front of a text that is not empty, chosen from those of the sorts that fit. -/
def readAs (choice : Choice) (sorts : List LexemeSort) (c : Char) (cs : List Char) : Lexeme :=
  (choice.select (sorts.filterMap (ofSort? (c :: cs)))).getD (illegal c cs)

variable {choice : Choice} {sorts : List LexemeSort} {c : Char} {cs : List Char} {x : Lexeme}

theorem readAs_first : readAs .first sorts c cs = readBy sorts c cs := by
  rw [readAs, readBy, ← List.head?_filterMap]
  rfl

theorem length_rest_readAs_lt (choice : Choice) (sorts : List LexemeSort) (c : Char)
    (cs : List Char) : (readAs choice sorts c cs).rest.length < (c :: cs).length := by
  rw [readAs]
  cases hselect : choice.select (sorts.filterMap (ofSort? (c :: cs))) with
  | none => exact Nat.lt_succ_self _
  | some x =>
    obtain ⟨sort, -, hx⟩ := List.mem_filterMap.mp (choice.mem_of_select hselect)
    obtain ⟨⟨text, rest⟩, hfound, rfl⟩ := Option.map_eq_some_iff.mp hx
    have hpos := List.length_pos_iff.mpr (Pattern.ne_nil_of_split? hfound)
    rw [← Pattern.append_of_split? hfound, List.length_append]
    exact Nat.lt_add_of_pos_left hpos

/-- Of the sorts of lexeme one or none fits. -/
theorem filterMap_ofSort?_cases (cs : List Char) :
    lexemes.filterMap (ofSort? cs) = [] ∨ ∃ x, lexemes.filterMap (ofSort? cs) = [x] := by
  have hpair : (lexemes.filterMap (ofSort? cs)).Pairwise fun _ _ => False := by
    refine List.pairwise_filterMap.mpr ((LexemeSort.pairwise_not_fits cs).imp_of_mem ?_)
    intro sort sort' hsort hsort' hnot x hx x' hx'
    obtain ⟨found, hfound, -⟩ := Option.map_eq_some_iff.mp hx
    obtain ⟨found', hfound', -⟩ := Option.map_eq_some_iff.mp hx'
    exact hnot ⟨(LexemeSort.fits_iff hsort).mpr ⟨_, _, hfound⟩,
      (LexemeSort.fits_iff hsort').mpr ⟨_, _, hfound'⟩⟩
  match hxs : lexemes.filterMap (ofSort? cs) with
  | [] => exact .inl rfl
  | [x] => exact .inr ⟨x, rfl⟩
  | x :: x' :: xs =>
    rw [hxs] at hpair
    exact absurd (List.rel_of_pairwise_cons hpair List.mem_cons_self) id

/-- Whatever the order and the rule, the same lexeme is read. -/
theorem readAs_eq_read (choice : Choice) (h : sorts.Perm lexemes) (c : Char) (cs : List Char) :
    readAs choice sorts c cs = read c cs := by
  have hperm := h.filterMap (ofSort? (c :: cs))
  rw [read, ← readAs_first, readAs, readAs]
  rcases filterMap_ofSort?_cases (c :: cs) with hnone | ⟨x, hone⟩
  · rw [hnone] at hperm
    cases hselect : choice.select (sorts.filterMap (ofSort? (c :: cs))) with
    | none => rw [hnone]; rfl
    | some x =>
      rw [hperm.eq_nil] at hselect
      exact absurd (choice.mem_of_select hselect) List.not_mem_nil
  · rw [hone] at hperm
    rw [List.perm_singleton.mp hperm, hone]
    cases hselect : choice.select [x] with
    | none => exact absurd (choice.eq_nil_of_select hselect) (List.cons_ne_nil x [])
    | some y =>
      rw [List.mem_singleton.mp (choice.mem_of_select hselect)]
      rfl

end Lexeme

/-! ## The tokens -/

namespace Lexer

variable {choice : Lexeme.Choice} {sorts : List LexemeSort} {l : Lexer} {c : Char} {cs : List Char}

/-- The tokens that are left, when lexemes are chosen by a rule from given sorts. -/
def drainBy (choice : Lexeme.Choice) (sorts : List LexemeSort) (l : Lexer) : List Token :=
  match h : l.skipGap.rest with
  | [] => []
  | c :: cs =>
    let found := Lexeme.readAs choice sorts c cs
    have _shorter : (l.skipGap.pass (found.text, found.rest)).skipTrailing.rest.length <
        l.rest.length := by
      have hread := Lexeme.length_rest_readAs_lt choice sorts c cs
      have hgap := l.length_rest_skipGap_le
      rw [h] at hgap
      refine Nat.lt_of_le_of_lt (length_rest_skipTrailing_le _) ?_
      exact Nat.lt_of_lt_of_le hread hgap
    found.token l.skipGap.place ::
      drainBy choice sorts (l.skipGap.pass (found.text, found.rest)).skipTrailing
termination_by l.rest.length

/-- The tokens of a text, when lexemes are chosen by a rule from given sorts. -/
def tokenizeBy (choice : Lexeme.Choice) (sorts : List LexemeSort) (text : List Char)
    (file : String) : List Token :=
  drainBy choice sorts (ofText text file)

theorem drainBy_of_gap (hgap : l.skipGap.rest = []) : l.drainBy choice sorts = [] := by
  rw [drainBy]
  split
  · rfl
  · rename_i h
    simp [hgap] at h

theorem drainBy_of_lexeme (h : sorts.Perm lexemes) (hgap : l.skipGap.rest = c :: cs) :
    l.drainBy choice sorts =
      l.skipGap.token c cs :: (l.skipGap.behind c cs).drainBy choice sorts := by
  rw [drainBy]
  split
  · rename_i hgap'
    simp [hgap] at hgap'
  · rename_i c' cs' hgap'
    rw [hgap] at hgap'
    obtain ⟨rfl, rfl⟩ := List.cons.inj hgap'
    simp only [Lexeme.readAs_eq_read choice h]
    rfl

/-- Whatever the order and the rule, the same tokens are left. -/
theorem drainBy_eq_drain (choice : Lexeme.Choice) (h : sorts.Perm lexemes) (l : Lexer)
    (hended : l.ended = false) : l.drainBy choice sorts = l.drain.1 := by
  refine induction_on_lexemes (motive := fun l => l.drainBy choice sorts = l.drain.1)
    (fun l hended hgap => ?_) (fun l c cs hended hgap ih => ?_) l hended
  · rw [drainBy_of_gap hgap, drain_of_gap hended hgap]
  · rw [drainBy_of_lexeme h hgap, drain_of_lexeme hended hgap, ih]

/-- The sorts of lexeme are unambiguous, and what is read of a sort is the longest text of its
language.  So neither the order of the sorts nor the rule by which one of those that fit is chosen
makes any difference to the tokens. -/
theorem unambiguous_and_tokenizeBy_eq_tokenize :
    (∀ cs, lexemes.Pairwise fun sort sort' => ¬ (sort.Fits cs ∧ sort'.Fits cs)) ∧
    (∀ sort ∈ lexemes, ∀ cs,
      (sort.Fits cs ↔ ∃ text rest, sort.pattern.split? cs = some (text, rest)) ∧
      ∀ text rest, sort.pattern.split? cs = some (text, rest) ↔
        text ++ rest = cs ∧ IsLongest sort.pattern.language cs text) ∧
    ∀ sorts, sorts.Perm lexemes → ∀ text file,
      tokenizeBy .first sorts text file = tokenize text file ∧
      tokenizeBy .longest sorts text file = tokenize text file ∧
      ∀ choice, tokenizeBy choice sorts text file = tokenize text file := by
  have horder : ∀ choice sorts, sorts.Perm lexemes → ∀ text file,
      tokenizeBy choice sorts text file = tokenize text file :=
    fun choice _ h text file => drainBy_eq_drain choice h (ofText text file) rfl
  refine ⟨LexemeSort.pairwise_not_fits, fun sort hsort cs => ?_, fun sorts h text file => ?_⟩
  · exact ⟨LexemeSort.fits_iff hsort, fun text rest => Pattern.split?_eq_some_iff_isLongest hsort⟩
  · exact ⟨horder _ sorts h text file, horder _ sorts h text file,
      fun choice => horder choice sorts h text file⟩

/-- With the sorts in the opposite order the arrow is tried before the number, and words before
strings; the longest lexeme of either order is the only one there is. -/
theorem unambiguous_and_tokenizeBy_eq_tokenize_reversed :
    let text := "-2->é'\\''!".toList
    lexemes.reverse.Perm lexemes ∧
    (tokenize text "here").map (·.render) = ["[here 1:1-1:2] number `-2`", "[here 1:3-1:4] -> `->`",
      "[here 1:5-1:5] identifier `é`", "[here 1:6-1:9] string `'`", "[here 1:10-1:10] prefix `!`"] ∧
    tokenizeBy .first lexemes.reverse text "here" = tokenize text "here" ∧
    tokenizeBy .longest lexemes.reverse text "here" = tokenize text "here" := by
  intro text
  have horder := unambiguous_and_tokenizeBy_eq_tokenize.2.2 lexemes.reverse
    (List.reverse_perm lexemes) text "here"
  exact ⟨List.reverse_perm lexemes, by decide +kernel, horder.1, horder.2.1⟩

end Lexer

end CircuitText
