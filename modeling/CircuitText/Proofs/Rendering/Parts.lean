import CircuitText.Program.Render
import CircuitText.Proofs.Writing.WellFormed

/-!
# The parts of a program can be read back from their texts

The text of a part of a well-formed program tells it apart from whatever follows, as long as what
follows does not go on with a word: no two parts of one sort have texts of which one, with something
behind it, could be mistaken for the other.  `TellsApart render P a` says so of `a` among the things
with the property `P`.  The texts are read from the left.  A first character tells an expression's
form and an opening word a statement's; brackets and separators are no part of a word and end the
texts before them, and no item of a list begins with a closing bracket (`Opens`), so that empty
lists are seen.

* `TellsApart`, `Opens` --- texts that tell things apart;
* `joined_append_inj`, `bracketed_append_inj` --- lists;
* `Delay.render_append_inj` --- delays;
* `Expression.tellsApart`, `Statement.tellsApart`, `Circuit.tellsApart` --- the parts of programs.
-/

namespace CircuitText

variable {α : Type}

/-- What follows does not go on with a word. -/
abbrev EndsWord (rest : List Char) : Prop := Text.Stops continuesWord rest

/-- The text of `a` tells it apart, with whatever is behind it, from things with the property
`P`. -/
def TellsApart (render : α → String) (P : α → Prop) (a : α) : Prop :=
  ∀ {b u v}, P b → EndsWord u → EndsWord v →
    (render a).toList ++ u = (render b).toList ++ v → a = b ∧ u = v

/-- The brackets behind a list. -/
def closings : List Char := [')', ']', '\x7d']

/-- The texts of things with the property `P` begin with a character that is no closing bracket. -/
def Opens (render : α → String) (P : α → Prop) : Prop :=
  ∀ a, P a → ∃ c cs, (render a).toList = c :: cs ∧ c ∉ closings

/-- The characters between names in a text. -/
def punctuation : List Char := [' ', '\n', ',', ';', '%', '(', '[', '\x7b'] ++ closings

/-- Punctuation ends words. -/
theorem continuesWord_of_mem_punctuation {c : Char} (h : c ∈ punctuation) :
    continuesWord c = false := by
  have hall : punctuation.all (fun d => d.toNat < 0x80 &&
      !(d.isAlpha || d == '_' || d.isDigit || d == '!' || d == '?')) = true := by decide
  have hascii := List.all_eq_true.mp hall c h
  rw [Bool.and_eq_true, decide_eq_true_eq, Bool.not_eq_true'] at hascii
  rw [continuesWord_of_ascii hascii.1, hascii.2]

theorem endsWord_cons {c : Char} {rest : List Char} (h : c ∈ punctuation) : EndsWord (c :: rest) :=
  Text.stops_cons.mpr (continuesWord_of_mem_punctuation h)

theorem endsWord_space {rest : List Char} : EndsWord (' ' :: rest) := endsWord_cons (by decide)

theorem endsWord_close {rest : List Char} : EndsWord (')' :: rest) := endsWord_cons (by decide)

/-! ## Names -/

theorem continuesWord_of_isName {x : List Char} (h : IsName x) :
    ∀ c ∈ x, continuesWord c = true := by
  obtain ⟨⟨c, cs, rfl, hc, hcs⟩, -⟩ := h
  refine List.forall_mem_cons.mpr ⟨?_, hcs⟩
  simp [continuesWord, hc]

/-- A name ends where a word does. -/
theorem name_append_inj {x y : String} {u v : List Char} (hx : IsName x.toList)
    (hy : IsName y.toList) (hu : EndsWord u) (hv : EndsWord v)
    (h : x.toList ++ u = y.toList ++ v) : x = y ∧ u = v := by
  obtain ⟨hname, hrest⟩ := Text.append_inj_of_stops h (continuesWord_of_isName hx)
    (continuesWord_of_isName hy) hu hv
  exact ⟨String.toList_inj.mp hname, hrest⟩

/-- A name begins with a letter. -/
theorem exists_first_of_isName {x : List Char} (h : IsName x) :
    ∃ c cs, x = c :: cs ∧ startsWord c = true := by
  obtain ⟨⟨c, cs, hx, hc, -⟩, -⟩ := h
  exact ⟨c, cs, hx, hc⟩

theorem ne_of_startsWord {c d : Char} (hc : startsWord c = true) (hd : d ∈ punctuation) :
    c ≠ d := by
  have hends := continuesWord_of_mem_punctuation hd
  rintro rfl
  simp [continuesWord, hc] at hends

theorem opens_name : Opens (fun x : String => x) fun x => IsName x.toList := by
  intro x hx
  obtain ⟨c, cs, heq, hc⟩ := exists_first_of_isName hx
  refine ⟨c, cs, heq, fun hmem => ?_⟩
  exact ne_of_startsWord hc (List.mem_append_right _ hmem) rfl

/-! ## Lists -/

/-- What is behind the first of several joined texts. -/
def joinedTail (separator : List Char) (render : α → String) (as : List α) : List Char :=
  as.flatMap fun a => separator ++ (render a).toList

theorem toList_joined_map (separator : String) (render : α → String) (a : α) (as : List α) :
    (Text.joined separator ((a :: as).map render)).toList =
      (render a).toList ++ joinedTail separator.toList render as := by
  induction as generalizing a with
  | nil => simp [joinedTail]
  | cons b as ih =>
    rw [List.map_cons, Text.joined_cons separator _ (by simp), String.toList_append,
      String.toList_append, ih]
    simp [joinedTail]

section Lists

variable {render : α → String} {P : α → Prop} {u v : List Char} {as bs : List α}

theorem endsWord_joinedTail {s e : Char} {ss : List Char} (hs : s ∈ punctuation)
    (he : e ∈ punctuation) : EndsWord (joinedTail (s :: ss) render as ++ e :: u) := by
  cases as with
  | nil => exact endsWord_cons he
  | cons a as => exact endsWord_cons hs

/-- The texts behind the first of a list, each after a separator, end at the closing bracket. -/
theorem joinedTail_append_inj (has : ∀ a ∈ as, TellsApart render P a) (hbs : ∀ b ∈ bs, P b)
    {s e : Char} {ss : List Char} (hs : s ∈ punctuation) (he : e ∈ punctuation) (hne : s ≠ e)
    (heq : joinedTail (s :: ss) render as ++ e :: u = joinedTail (s :: ss) render bs ++ e :: v) :
    as = bs ∧ u = v := by
  induction as generalizing bs with
  | nil =>
    cases bs with
    | nil => exact ⟨rfl, (List.cons.inj heq).2⟩
    | cons b bs => exact absurd (List.cons.inj heq).1.symm hne
  | cons a as ih =>
    cases bs with
    | nil => exact absurd (List.cons.inj heq).1 hne
    | cons b bs =>
      obtain ⟨ha, hmore⟩ := List.forall_mem_cons.mp has
      obtain ⟨hb, hmore'⟩ := List.forall_mem_cons.mp hbs
      simp only [joinedTail, List.flatMap_cons, List.append_assoc,
        List.append_cancel_left_eq] at heq
      obtain ⟨rfl, hrest⟩ :=
        ha hb (endsWord_joinedTail hs he) (endsWord_joinedTail hs he) heq
      obtain ⟨htail, hrest⟩ := ih hmore hmore' hrest
      exact ⟨congrArg (a :: ·) htail, hrest⟩

/-- The texts of a list with separators between them end at the closing bracket. -/
theorem joined_append_inj (hopens : Opens render P)
    (has : ∀ a ∈ as, P a ∧ TellsApart render P a) (hbs : ∀ b ∈ bs, P b) {separator : String}
    {s e : Char} {ss : List Char} (hseparator : separator.toList = s :: ss)
    (hs : s ∈ punctuation) (he : e ∈ closings) (hne : s ≠ e)
    (heq : (Text.joined separator (as.map render)).toList ++ e :: u =
      (Text.joined separator (bs.map render)).toList ++ e :: v) : as = bs ∧ u = v := by
  have hclosing : e ∈ punctuation := List.mem_append_right _ he
  have hbegins : ∀ {a : α} {w : List Char}, P a → (render a).toList ++ w ≠ e :: v ∧
      (render a).toList ++ w ≠ e :: u := by
    intro a w ha
    obtain ⟨c, cs, hc, hnot⟩ := hopens a ha
    rw [hc]
    constructor <;> exact fun hcons => hnot ((List.cons.inj hcons).1 ▸ he)
  cases as with
  | nil =>
    cases bs with
    | nil => exact ⟨rfl, (List.cons.inj heq).2⟩
    | cons b bs =>
      rw [toList_joined_map, List.append_assoc] at heq
      exact absurd heq.symm (hbegins (hbs b (List.mem_cons_self ..))).2
  | cons a as =>
    obtain ⟨ha, hmore⟩ := List.forall_mem_cons.mp has
    cases bs with
    | nil =>
      rw [toList_joined_map, List.append_assoc] at heq
      exact absurd heq (hbegins ha.1).1
    | cons b bs =>
      obtain ⟨hb, hmore'⟩ := List.forall_mem_cons.mp hbs
      rw [toList_joined_map, toList_joined_map, hseparator, List.append_assoc,
        List.append_assoc] at heq
      obtain ⟨rfl, hrest⟩ :=
        ha.2 hb (endsWord_joinedTail hs hclosing) (endsWord_joinedTail hs hclosing) heq
      obtain ⟨htail, hrest⟩ := joinedTail_append_inj (fun a ha => (hmore a ha).2) hmore' hs hclosing
        hne hrest
      exact ⟨congrArg (a :: ·) htail, hrest⟩

/-- A list in brackets ends at its closing bracket. -/
theorem bracketed_append_inj (hopens : Opens render P) (htells : ∀ a, P a → TellsApart render P a)
    (has : ∀ a ∈ as, P a) (hbs : ∀ b ∈ bs, P b)
    (heq : (bracketed (as.map render)).toList ++ u = (bracketed (bs.map render)).toList ++ v) :
    as = bs ∧ u = v := by
  simp only [bracketed, String.toList_append, List.append_assoc] at heq
  exact joined_append_inj hopens (fun a ha => ⟨has a ha, htells a (has a ha)⟩) hbs rfl
    (by decide) (by decide) (by decide)
    (List.append_cancel_left heq)

end Lists

/-! ## Parameters and delays -/

namespace Parameter

theorem tellsApart {p : Parameter} (hp : IsName p.name.toList) :
    TellsApart render (fun q => IsName q.name.toList) p := by
  intro q u v hq hu hv h
  cases p with
  | register x =>
    cases q with
    | register y =>
      obtain ⟨rfl, hrest⟩ := name_append_inj hp hq hu hv h
      exact ⟨rfl, hrest⟩
    | group y =>
      obtain ⟨c, cs, heq, hc⟩ := exists_first_of_isName hp
      simp only [name] at heq
      simp only [render, String.toList_append, heq] at h
      exact absurd (List.cons.inj h).1 (ne_of_startsWord hc (by decide))
  | group x =>
    cases q with
    | register y =>
      obtain ⟨c, cs, heq, hc⟩ := exists_first_of_isName hq
      simp only [name] at heq
      simp only [render, String.toList_append, heq] at h
      exact absurd (List.cons.inj h).1.symm (ne_of_startsWord hc (by decide))
    | group y =>
      simp only [render, String.toList_append, List.append_assoc] at h
      obtain ⟨rfl, hrest⟩ := name_append_inj hp hq hu hv (List.append_cancel_left h)
      exact ⟨rfl, hrest⟩

theorem opens : Opens render fun p => IsName p.name.toList := by
  intro p hp
  cases p with
  | register x => exact opens_name x hp
  | group x => exact ⟨'%', x.toList, by simp [render], by decide⟩

end Parameter

/-- A delay is shown by an amount and a unit. -/
theorem Delay.exists_render_eq (d : Delay) :
    ∃ n u, d.render = n.repr ++ TimeUnit.symbol u ∧ d.nanoseconds = n * u.size := by
  unfold render
  split
  · rename_i hzero
    exact ⟨0, .second, rfl, by rw [hzero, Nat.zero_mul]⟩
  · exact ⟨_, d.unit, rfl, (Nat.div_mul_cancel d.size_unit_dvd).symm⟩

theorem TimeUnit.symbol_inj {u v : TimeUnit} (h : u.symbol = v.symbol) : u = v := by
  revert h
  cases u <;> cases v <;> decide

/-- A delay ends at a space. -/
theorem Delay.render_append_inj {d d' : Delay} {u v : List Char}
    (h : d.render.toList ++ ' ' :: u = d'.render.toList ++ ' ' :: v) : d = d' ∧ u = v := by
  obtain ⟨n, w, hd, hn⟩ := d.exists_render_eq
  obtain ⟨n', w', hd', hn'⟩ := d'.exists_render_eq
  rw [hd, hd', String.toList_append, String.toList_append, List.append_assoc,
    List.append_assoc] at h
  have hsymbol : ∀ w : TimeUnit, (∀ c ∈ w.symbol.toList, (c != ' ') = true) ∧
      ∀ rest, Text.Stops Char.isDigit (w.symbol.toList ++ rest) := by
    intro w
    cases w <;>
      exact ⟨List.all_eq_true.mp (by decide), fun rest => Text.stops_cons.mpr (by decide)⟩
  obtain ⟨hdigits, hsuffix⟩ := Text.append_inj_of_stops h (fun c => Text.isDigit_of_mem_repr)
    (fun c => Text.isDigit_of_mem_repr) ((hsymbol w).2 _) ((hsymbol w').2 _)
  obtain ⟨hunit, hrest⟩ := Text.append_inj_of_stops (p := (· != ' ')) hsuffix (hsymbol w).1
    (hsymbol w').1 (by simp) (by simp)
  obtain rfl := TimeUnit.symbol_inj (String.toList_inj.mp hunit)
  obtain rfl := Text.repr_inj hdigits
  obtain ⟨nanoseconds, hlt⟩ := d
  obtain ⟨nanoseconds', hlt'⟩ := d'
  obtain rfl : nanoseconds = nanoseconds' := hn.trans hn'.symm
  exact ⟨rfl, (List.cons.inj hrest).2⟩

/-! ## Expressions -/

namespace Expression

/-- What the first character of its text says about the form of an expression: all names begin
alike, and so do the two prefix operators. -/
def clue (c : Char) : Char := if startsWord c then 'a' else if c = '¬' then '!' else c

/-- The clue that an expression gives. -/
def opening : Expression → Char
  | .bit _ => '<'
  | .register _ => 'a'
  | .group _ => '%'
  | .unary .. => '!'
  | .binary .. => '('

theorem clue_of_startsWord_eq_false {c : Char} (h : startsWord c = false) :
    clue c = if c = '¬' then '!' else c := by
  rw [clue, h]
  rfl

theorem exists_char_of_prefixOperator {o : String} (h : o ∈ prefixOperators) :
    ∃ c, o.toList = [c] ∧ clue c = '!' := by
  simp only [prefixOperators, List.mem_cons, List.not_mem_nil, or_false] at h
  rcases h with rfl | rfl
  · exact ⟨'!', rfl, clue_of_startsWord_eq_false (startsWord_eq_false (by decide))⟩
  · exact ⟨'¬', rfl, clue_of_startsWord_eq_false (startsWord_of_mem_signs (by decide))⟩

theorem exists_char_of_infixOperator {o : String} (h : o ∈ infixOperators) :
    ∃ c, o.toList = [c] := by
  simp only [infixOperators, List.mem_cons, List.not_mem_nil, or_false] at h
  rcases h with rfl | rfl | rfl | rfl | rfl | rfl <;> exact ⟨_, rfl⟩

/-- The text of an expression begins with its clue. -/
theorem exists_first_of_render {e : Expression} (h : e.WellFormed) :
    ∃ c cs, e.render.toList = c :: cs ∧ clue c = e.opening := by
  have hmark : ∀ {d : Char}, d.toNat < 0x41 → clue d = if d = '¬' then '!' else d := fun hlow =>
    clue_of_startsWord_eq_false (startsWord_eq_false hlow)
  cases h with
  | @bit b => cases b <;> exact ⟨'<', _, rfl, hmark (by decide)⟩
  | register hx =>
    obtain ⟨c, cs, heq, hc⟩ := exists_first_of_isName hx
    exact ⟨c, cs, heq, by simp [clue, hc, opening]⟩
  | @group x hx =>
    refine ⟨'%', x.toList, ?_, hmark (by decide)⟩
    rw [render, String.toList_append]
    rfl
  | unary ho he =>
    obtain ⟨c, hc, hclue⟩ := exists_char_of_prefixOperator ho
    exact ⟨c, _, by rw [render, String.toList_append, hc]; rfl, hclue⟩
  | binary =>
    exact ⟨'(', _, by simp only [render, String.toList_append, List.append_assoc]; rfl,
      hmark (by decide)⟩

/-- Expressions with the same beginning are of one form. -/
theorem opening_eq {a b : Expression} {u v : List Char} (ha : a.WellFormed) (hb : b.WellFormed)
    (h : a.render.toList ++ u = b.render.toList ++ v) : a.opening = b.opening := by
  obtain ⟨c, cs, hc, hclue⟩ := exists_first_of_render ha
  obtain ⟨d, ds, hd, hclue'⟩ := exists_first_of_render hb
  rw [hc, hd] at h
  rw [← hclue, ← hclue', (List.cons.inj h).1]

/-- The text of an expression tells it apart. -/
theorem tellsApart {a : Expression} (ha : a.WellFormed) : TellsApart render WellFormed a := by
  induction ha with
  | @bit value =>
    intro b u v hb hu hv h
    have hform := opening_eq .bit hb h
    cases hb with
    | @bit value' =>
      cases value <;> cases value' <;> simp [render] at h ⊢ <;> exact h
    | _ => simp [opening] at hform
  | register hx =>
    intro b u v hb hu hv h
    have hform := opening_eq (.register hx) hb h
    cases hb with
    | register hy =>
      obtain ⟨rfl, hrest⟩ := name_append_inj hx hy hu hv h
      exact ⟨rfl, hrest⟩
    | _ => simp [opening] at hform
  | group hx =>
    intro b u v hb hu hv h
    have hform := opening_eq (.group hx) hb h
    cases hb with
    | group hy =>
      simp only [render, String.toList_append, List.append_assoc] at h
      obtain ⟨rfl, hrest⟩ := name_append_inj hx hy hu hv (List.append_cancel_left h)
      exact ⟨rfl, hrest⟩
    | _ => simp [opening] at hform
  | @unary o e ho he ih =>
    intro b u v hb hu hv h
    have hform := opening_eq (.unary ho he) hb h
    cases hb with
    | @unary o' e' ho' he' =>
      obtain ⟨c, hc, -⟩ := exists_char_of_prefixOperator ho
      obtain ⟨c', hc', -⟩ := exists_char_of_prefixOperator ho'
      have h : c :: (e.render.toList ++ u) = c' :: (e'.render.toList ++ v) := by
        simpa [render, hc, hc'] using h
      obtain ⟨rfl, hoperand⟩ := List.cons.inj h
      obtain ⟨rfl, hrest⟩ := ih he' hu hv hoperand
      obtain rfl : o = o' := String.toList_inj.mp (hc.trans hc'.symm)
      exact ⟨rfl, hrest⟩
    | _ => simp [opening] at hform
  | @binary o left right hleft ho hright ihleft ihright =>
    intro b u v hb hu hv h
    have hform := opening_eq (.binary hleft ho hright) hb h
    cases hb with
    | @binary o' left' right' hleft' ho' hright' =>
      obtain ⟨c, hc⟩ := exists_char_of_infixOperator ho
      obtain ⟨c', hc'⟩ := exists_char_of_infixOperator ho'
      have h : left.render.toList ++ ' ' :: c :: ' ' :: (right.render.toList ++ ')' :: u) =
          left'.render.toList ++ ' ' :: c' :: ' ' :: (right'.render.toList ++ ')' :: v) := by
        simpa [render, hc, hc'] using h
      obtain ⟨rfl, hmiddle⟩ := ihleft hleft' endsWord_space endsWord_space h
      simp only [List.cons.injEq, true_and] at hmiddle
      obtain ⟨rfl, hoperand⟩ := hmiddle
      obtain ⟨rfl, hrest⟩ := ihright hright' endsWord_close endsWord_close hoperand
      obtain rfl : o = o' := String.toList_inj.mp (hc.trans hc'.symm)
      exact ⟨rfl, (List.cons.inj hrest).2⟩
    | _ => simp [opening] at hform

theorem opens : Opens render WellFormed := by
  intro e he
  obtain ⟨c, cs, heq, hclue⟩ := exists_first_of_render he
  refine ⟨c, cs, heq, fun hmem => ?_⟩
  have hends := continuesWord_of_mem_punctuation (List.mem_append_right _ hmem)
  simp only [continuesWord, Bool.or_eq_false_iff] at hends
  have hsign : '¬' ∉ closings := by decide
  rw [clue_of_startsWord_eq_false hends.1.1.1, if_neg (ne_of_mem_of_not_mem hmem hsign)] at hclue
  rw [hclue] at hmem
  cases e <;> simp [opening, closings] at hmem

end Expression

/-! ## Statements -/

namespace Statement

theorem parameters_append_inj {ps qs : List Parameter} {u v : List Char}
    (hps : ∀ p ∈ ps, IsName p.name.toList) (hqs : ∀ q ∈ qs, IsName q.name.toList)
    (h : (bracketed (ps.map (·.render))).toList ++ u =
      (bracketed (qs.map (·.render))).toList ++ v) : ps = qs ∧ u = v :=
  bracketed_append_inj Parameter.opens (fun _ => Parameter.tellsApart) hps hqs h

theorem expressions_append_inj {es fs : List Expression} {u v : List Char}
    (hes : ∀ e ∈ es, e.WellFormed) (hfs : ∀ f ∈ fs, f.WellFormed)
    (h : (bracketed (es.map (·.render))).toList ++ u =
      (bracketed (fs.map (·.render))).toList ++ v) : es = fs ∧ u = v :=
  bracketed_append_inj Expression.opens (fun _ => Expression.tellsApart) hes hfs h

/-- The counter of a clock is a name or nothing, and a bracket follows. -/
theorem counter_append_inj {c d : Option String} {u v : List Char}
    (hc : ∀ x ∈ c, IsName x.toList) (hd : ∀ x ∈ d, IsName x.toList)
    (h : (c.getD "").toList ++ ')' :: u = (d.getD "").toList ++ ')' :: v) : c = d ∧ u = v := by
  have hrun : ∀ {c : Option String}, (∀ x ∈ c, IsName x.toList) →
      ∀ k ∈ (c.getD "").toList, continuesWord k = true := by
    intro c hc
    cases c with
    | none => simp
    | some x => exact continuesWord_of_isName (hc x rfl)
  obtain ⟨hname, hrest⟩ := Text.append_inj_of_stops h (hrun hc) (hrun hd) endsWord_close
    endsWord_close
  refine ⟨?_, (List.cons.inj hrest).2⟩
  cases c with
  | none =>
    cases d with
    | none => rfl
    | some y =>
      obtain ⟨k, ks, hy, -⟩ := exists_first_of_isName (hd y rfl)
      simp [hy] at hname
  | some x =>
    cases d with
    | none =>
      obtain ⟨k, ks, hx, -⟩ := exists_first_of_isName (hc x rfl)
      simp [hx] at hname
    | some y => exact congrArg some (String.toList_inj.mp hname)

/-- Every statement begins with an angle bracket. -/
theorem opens : Opens render WellFormed := by
  intro s hs
  have hopening : ∃ cs, s.render.toList = '<' :: cs := by
    cases s <;> exact ⟨_, by simp only [render, String.toList_append, List.append_assoc]; rfl⟩
  obtain ⟨cs, hcs⟩ := hopening
  exact ⟨'<', cs, hcs, by decide⟩

/-- The text of a statement tells it apart. -/
theorem tellsApart {a : Statement} (ha : a.WellFormed) : TellsApart render WellFormed a := by
  induction ha with
  | @group x ps hx hps =>
    intro b u v hb hu hv h
    cases hb with
    | @group y qs hy hqs =>
      have h : x.toList ++ ' ' :: ((bracketed (ps.map (·.render))).toList ++ '>' :: u) =
          y.toList ++ ' ' :: ((bracketed (qs.map (·.render))).toList ++ '>' :: v) := by
        simpa [render] using h
      obtain ⟨rfl, hmembers⟩ := name_append_inj hx hy endsWord_space endsWord_space h
      obtain ⟨rfl, hrest⟩ := parameters_append_inj hps hqs (List.cons.inj hmembers).2
      exact ⟨rfl, (List.cons.inj hrest).2⟩
    | _ => simp [render] at h
  | @call x es os hx hes hos =>
    intro b u v hb hu hv h
    cases hb with
    | @call y es' os' hy hes' hos' =>
      have h : x.toList ++ ' ' :: ((bracketed (es.map (·.render))).toList ++
          (" -> ".toList ++ ((bracketed (os.map (·.render))).toList ++ '>' :: u))) =
          y.toList ++ ' ' :: ((bracketed (es'.map (·.render))).toList ++
          (" -> ".toList ++ ((bracketed (os'.map (·.render))).toList ++ '>' :: v))) := by
        simpa [render] using h
      obtain ⟨rfl, hinputs⟩ := name_append_inj hx hy endsWord_space endsWord_space h
      obtain ⟨rfl, harrow⟩ := expressions_append_inj hes hes' (List.cons.inj hinputs).2
      obtain ⟨rfl, hrest⟩ := parameters_append_inj hos hos' (List.append_cancel_left harrow)
      exact ⟨rfl, (List.cons.inj hrest).2⟩
    | _ => simp [render] at h
  | @pipe es os hes hos =>
    intro b u v hb hu hv h
    cases hb with
    | @pipe es' os' hes' hos' =>
      have h : (bracketed (es.map (·.render))).toList ++
          (" -> ".toList ++ ((bracketed (os.map (·.render))).toList ++ '>' :: u)) =
          (bracketed (es'.map (·.render))).toList ++
          (" -> ".toList ++ ((bracketed (os'.map (·.render))).toList ++ '>' :: v)) := by
        simpa [render] using h
      obtain ⟨rfl, harrow⟩ := expressions_append_inj hes hes' h
      obtain ⟨rfl, hrest⟩ := parameters_append_inj hos hos' (List.append_cancel_left harrow)
      exact ⟨rfl, (List.cons.inj hrest).2⟩
    | _ => simp [render] at h
  | @clock d c body hd hc hbody ih =>
    intro b u v hb hu hv h
    cases hb with
    | @clock d' c' body' hd' hc' hbody' =>
      have h : d.render.toList ++ ' ' :: ('(' :: ((c.getD "").toList ++ ')' :: (" [".toList ++
          ((Text.joined "; " (body.map render)).toList ++ ']' :: ('>' :: u))))) =
          d'.render.toList ++ ' ' :: ('(' :: ((c'.getD "").toList ++ ')' :: (" [".toList ++
          ((Text.joined "; " (body'.map render)).toList ++ ']' :: ('>' :: v))))) := by
        simpa [render, renderBody_eq_map] using h
      obtain ⟨rfl, hcounter⟩ := Delay.render_append_inj h
      obtain ⟨rfl, hblock⟩ := counter_append_inj hc hc' (List.cons.inj hcounter).2
      obtain ⟨rfl, hrest⟩ := joined_append_inj opens (fun s hs => ⟨hbody s hs, ih s hs⟩) hbody' rfl
        (by decide) (by decide) (by decide)
        (List.append_cancel_left hblock)
      exact ⟨rfl, (List.cons.inj hrest).2⟩
    | _ => simp [render] at h

end Statement

/-! ## Circuits -/

namespace Circuit

theorem opens : Opens render WellFormed := by
  intro c hc
  obtain ⟨k, ks, heq, hnot⟩ := opens_name c.name hc.name
  exact ⟨k, _, by simp only [render, String.toList_append, List.append_assoc, heq]; rfl, hnot⟩

/-- The text of a circuit tells it apart. -/
theorem tellsApart {c : Circuit} (hc : c.WellFormed) : TellsApart render WellFormed c := by
  intro d u v hd hu hv h
  obtain ⟨x, is, os, body⟩ := c
  obtain ⟨x', is', os', body'⟩ := d
  have hnames : ∀ x : String, IsName x.toList →
      TellsApart (fun x : String => x) (fun x => IsName x.toList) x :=
    fun x hx y u v hy hu hv h => name_append_inj hx hy hu hv h
  have h : x.toList ++ ' ' :: ((bracketed (is.map fun x => x)).toList ++ (" -> ".toList ++
      ((bracketed (os.map fun x => x)).toList ++ (" \x7b".toList ++
      ((Text.joined "; " (body.map (·.render))).toList ++ '\x7d' :: u))))) =
      x'.toList ++ ' ' :: ((bracketed (is'.map fun x => x)).toList ++ (" -> ".toList ++
      ((bracketed (os'.map fun x => x)).toList ++ (" \x7b".toList ++
      ((Text.joined "; " (body'.map (·.render))).toList ++ '\x7d' :: v))))) := by
    simpa [render] using h
  obtain ⟨rfl, hinputs⟩ := name_append_inj hc.name hd.name endsWord_space endsWord_space h
  obtain ⟨rfl, harrow⟩ := bracketed_append_inj opens_name hnames hc.inputs hd.inputs
    (List.cons.inj hinputs).2
  obtain ⟨rfl, hblock⟩ := bracketed_append_inj opens_name hnames hc.outputs hd.outputs
    (List.append_cancel_left harrow)
  obtain ⟨rfl, hrest⟩ := joined_append_inj Statement.opens
    (fun s hs => ⟨hc.body s hs, Statement.tellsApart (hc.body s hs)⟩) hd.body rfl
    (by decide) (by decide) (by decide)
    (List.append_cancel_left hblock)
  exact ⟨rfl, hrest⟩

end Circuit

end CircuitText
