import CircuitText.Proofs.Rendering.Parts
import CircuitText.Proofs.Rendering.Quoted
import Mathlib.Data.List.Induction

/-!
# The text of a program says which program it is

The name of a program is shown as it is.  It may hold line feeds, brackets and all else that is
behind a name, so it cannot be read from the left.  Its end is found from the right.

The circuits are shown on lines that end in a closing brace each, and the text of a circuit has no
line feed.  So the last line feed without a closing brace before it is that behind the references.
A reference ends in a quoted text, whose opening quote can be found from the closing one; what is
before it says if a program name is meant, and if there are more references.

* `Text.IsOneLine` --- the texts of circuits have no line feeds;
* `Circuit.guarded_lines` --- the line feed behind the references;
* `Inclusion.append_render_inj`, `Inclusion.append_listed_inj` --- references from the right;
* `Program.render_inj` --- programs.
-/

namespace CircuitText

/-! ## Line feeds -/

namespace Text

/-- A text without line feeds. -/
def IsOneLine (s : String) : Prop := '\n' ∉ s.toList

instance (s : String) : Decidable (IsOneLine s) := inferInstanceAs (Decidable ('\n' ∉ s.toList))

theorem isOneLine_append {s t : String} : IsOneLine (s ++ t) ↔ IsOneLine s ∧ IsOneLine t := by
  simp [IsOneLine, not_or]

theorem isOneLine_joined {separator : String} (hseparator : IsOneLine separator)
    {items : List String} (h : ∀ s ∈ items, IsOneLine s) : IsOneLine (joined separator items) := by
  induction items with
  | nil => exact (by decide : IsOneLine "")
  | cons s items ih =>
    obtain ⟨hs, hitems⟩ := List.forall_mem_cons.mp h
    cases items with
    | nil => exact hs
    | cons t items =>
      rw [joined_cons separator s (by simp), isOneLine_append, isOneLine_append]
      exact ⟨⟨hs, hseparator⟩, ih hitems⟩

theorem isOneLine_repr (n : Nat) : IsOneLine n.repr := by
  intro hmem
  have hdigit := isDigit_of_mem_repr hmem
  revert hdigit
  decide

end Text

open Text (IsOneLine isOneLine_append)

theorem isOneLine_of_isName {x : String} (h : IsName x.toList) : IsOneLine x := by
  intro hmem
  have hword := continuesWord_of_isName h '\n' hmem
  rw [continuesWord_of_mem_punctuation (by decide)] at hword
  exact absurd hword (by decide)

theorem isOneLine_bracketed {items : List String} (h : ∀ s ∈ items, IsOneLine s) :
    IsOneLine (bracketed items) := by
  rw [bracketed, isOneLine_append, isOneLine_append]
  exact ⟨⟨by decide, Text.isOneLine_joined (by decide) h⟩, by decide⟩

theorem Parameter.isOneLine_render {p : Parameter} (h : IsName p.name.toList) :
    IsOneLine p.render := by
  cases p with
  | register x => exact isOneLine_of_isName h
  | group x => exact isOneLine_append.mpr ⟨by decide, isOneLine_of_isName h⟩

theorem Delay.isOneLine_render (d : Delay) : IsOneLine d.render := by
  obtain ⟨n, u, hd, -⟩ := d.exists_render_eq
  rw [hd, isOneLine_append]
  exact ⟨Text.isOneLine_repr n, by cases u <;> decide⟩

theorem Expression.isOneLine_render {e : Expression} (h : e.WellFormed) : IsOneLine e.render := by
  induction h with
  | @bit b => cases b <;> decide
  | register hx => exact isOneLine_of_isName hx
  | group hx => exact isOneLine_append.mpr ⟨by decide, isOneLine_of_isName hx⟩
  | unary ho he ih =>
    have hall : ∀ o ∈ prefixOperators, IsOneLine o := by decide
    exact isOneLine_append.mpr ⟨hall _ ho, ih⟩
  | binary hleft ho hright ihleft ihright =>
    have hall : ∀ o ∈ infixOperators, IsOneLine o := by decide
    simp +decide only [render, isOneLine_append, ihleft, hall _ ho, ihright]

theorem Statement.isOneLine_render {s : Statement} (h : s.WellFormed) : IsOneLine s.render := by
  have hparameters : ∀ {ps : List Parameter}, (∀ p ∈ ps, IsName p.name.toList) →
      IsOneLine (bracketed (ps.map (·.render))) := fun hps =>
    isOneLine_bracketed (List.forall_mem_map.mpr fun p hp => Parameter.isOneLine_render (hps p hp))
  have hexpressions : ∀ {es : List Expression}, (∀ e ∈ es, e.WellFormed) →
      IsOneLine (bracketed (es.map (·.render))) := fun hes =>
    isOneLine_bracketed (List.forall_mem_map.mpr fun e he => Expression.isOneLine_render (hes e he))
  induction h with
  | group hx hps =>
    simp +decide only [render, isOneLine_append, isOneLine_of_isName hx, hparameters hps]
  | call hx hes hos =>
    simp +decide only [render, isOneLine_append, isOneLine_of_isName hx, hexpressions hes,
      hparameters hos]
  | pipe hes hos =>
    simp +decide only [render, isOneLine_append, hexpressions hes, hparameters hos]
  | @clock d c body hd hc hbody ih =>
    have hcounter : IsOneLine (c.getD "") := by
      cases c with
      | none => decide
      | some x => exact isOneLine_of_isName (hc x rfl)
    have hblock : IsOneLine (Text.joined "; " (body.map render)) :=
      Text.isOneLine_joined (by decide) (List.forall_mem_map.mpr ih)
    simp +decide only [render, renderBody_eq_map, isOneLine_append, d.isOneLine_render, hcounter,
      hblock]

namespace Circuit

theorem isOneLine_render {c : Circuit} (h : c.WellFormed) : IsOneLine c.render := by
  have hnames : ∀ {xs : List String}, (∀ x ∈ xs, IsName x.toList) → IsOneLine (bracketed xs) :=
    fun hxs => isOneLine_bracketed fun x hx => isOneLine_of_isName (hxs x hx)
  have hbody : IsOneLine (Text.joined "; " (c.body.map (·.render))) :=
    Text.isOneLine_joined (by decide)
      (List.forall_mem_map.mpr fun s hs => Statement.isOneLine_render (h.body s hs))
  simp +decide only [render, isOneLine_append, isOneLine_of_isName h.name, hnames h.inputs,
    hnames h.outputs, hbody]

theorem getLast?_render (c : Circuit) : c.render.toList.getLast? = some '\x7d' := by
  rw [render, String.toList_append, List.getLast?_append]
  rfl

/-- Among the lines of circuits, each line feed is behind a closing brace. -/
theorem guarded_lines {cs : List Circuit} (h : ∀ c ∈ cs, c.WellFormed) :
    Text.Guarded '\n' '\x7d' ((Text.joined "\n" (cs.map (·.render))).toList ++ ['\x7d']) := by
  induction cs with
  | nil => exact Text.guarded_of_notMem (by decide)
  | cons c cs ih =>
    obtain ⟨hc, hcs⟩ := List.forall_mem_cons.mp h
    have hline := isOneLine_render hc
    cases cs with
    | nil => exact Text.guarded_of_notMem (by simpa [Text.IsOneLine] using hline)
    | cons d cs =>
      have hsplit : (Text.joined "\n" ((c :: d :: cs).map (·.render))).toList ++ ['\x7d'] =
          (c.render.toList ++ ['\n']) ++
            ((Text.joined "\n" ((d :: cs).map (·.render))).toList ++ ['\x7d']) := by
        rw [List.map_cons, Text.joined_cons "\n" c.render (by simp)]
        simp
      rw [hsplit]
      exact (Text.guarded_append_mark hline c.getLast?_render).append (ih hcs)

end Circuit

/-! ## References -/

namespace Inclusion

/-- What is shown before the quoted text of a reference. -/
def label (i : Inclusion) : String := if i.byName then "name:" else ""

theorem toList_render (i : Inclusion) :
    i.render.toList = i.label.toList ++ Text.quoted i.value.toList := by
  rw [render, String.toList_append, String.toList_ofList]
  rfl

theorem getLast?_append_label (a : List Char) (i : Inclusion) :
    (a ++ i.label.toList).getLast? = if i.byName then some ':' else a.getLast? := by
  rw [List.getLast?_append, label]
  split <;> rfl

/-- A reference can be cut off from the right, if what is before it ends in a bracket or a space. -/
theorem append_render_inj {a b : List Char} {i j : Inclusion}
    (h : a ++ i.render.toList = b ++ j.render.toList) (ha : a.getLast? ∈ [some '[', some ' '])
    (hb : b.getLast? ∈ [some '[', some ' ']) : a = b ∧ i = j := by
  have hnot : ∀ c ∈ [some '[', some ' '], c ≠ some '\\' ∧ c ≠ some ':' := by decide
  have hlabel : ∀ {a : List Char} (i : Inclusion), a.getLast? ∈ [some '[', some ' '] →
      (a ++ i.label.toList).getLast? ≠ some '\\' := by
    intro a i ha
    rw [getLast?_append_label]
    split
    · decide
    · exact (hnot _ ha).1
  rw [toList_render, toList_render, ← List.append_assoc, ← List.append_assoc] at h
  obtain ⟨hfront, hvalue⟩ := Text.append_quoted_inj h (hlabel i ha) (hlabel j hb)
  have hlast := congrArg List.getLast? hfront
  rw [getLast?_append_label, getLast?_append_label] at hlast
  obtain ⟨byName, value⟩ := i
  obtain ⟨byName', value'⟩ := j
  obtain rfl : value = value' := String.toList_inj.mp hvalue
  cases byName <;> cases byName'
  · exact ⟨by simpa [label] using hfront, rfl⟩
  · exact absurd hlast (hnot _ ha).2
  · exact absurd hlast.symm (hnot _ hb).2
  · exact ⟨List.append_cancel_right hfront, rfl⟩

theorem getLast?_append_render (a : List Char) (i : Inclusion) :
    (a ++ i.render.toList).getLast? = some '"' := by
  rw [toList_render, Text.quoted, ← List.append_assoc, ← List.append_assoc, List.getLast?_concat]

/-- References behind a bracket, each with a space behind it. -/
def listed (is : List Inclusion) : List Char :=
  '[' :: is.flatMap fun i => i.render.toList ++ [' ']

theorem listed_concat (is : List Inclusion) (i : Inclusion) :
    listed (is ++ [i]) = listed is ++ i.render.toList ++ [' '] := by
  simp [listed]

theorem joined_concat (is : List Inclusion) (i : Inclusion) :
    '[' :: (Text.joined " " ((is ++ [i]).map (·.render))).toList =
      listed is ++ i.render.toList := by
  have hjoined : (Text.joined " " ((is ++ [i]).map (·.render))).toList =
      (is.flatMap fun i => i.render.toList ++ [' ']) ++ i.render.toList := by
    induction is with
    | nil => rfl
    | cons k is ih =>
      rw [List.cons_append, List.map_cons, Text.joined_cons " " k.render (by simp),
        String.toList_append, ih]
      simp
  rw [hjoined]
  rfl

theorem getLast?_append_listed (a : List Char) (is : List Inclusion) :
    (a ++ listed is).getLast? = if is.isEmpty then some '[' else some ' ' := by
  cases is using List.reverseRecOn with
  | nil => simp [listed]
  | append_singleton is i => simp [listed_concat, List.getLast?_append]

theorem getLast?_append_listed_mem {a : List Char} {is : List Inclusion} :
    (a ++ listed is).getLast? ∈ [some '[', some ' '] := by
  rw [getLast?_append_listed]
  split <;> decide

/-- References can be cut off one by one from the right. -/
theorem append_listed_inj {a b : List Char} {is js : List Inclusion}
    (h : a ++ listed is = b ++ listed js) : a = b ∧ is = js := by
  induction is using List.reverseRecOn generalizing js with
  | nil =>
    have hlast := congrArg List.getLast? h
    rw [getLast?_append_listed, getLast?_append_listed] at hlast
    cases js with
    | nil => exact ⟨List.append_cancel_right h, rfl⟩
    | cons j js => simp at hlast
  | append_singleton is i ih =>
    have hlast := congrArg List.getLast? h
    rw [getLast?_append_listed, getLast?_append_listed] at hlast
    cases js using List.reverseRecOn with
    | nil => simp at hlast
    | append_singleton js j =>
      rw [listed_concat, listed_concat, ← List.append_assoc, ← List.append_assoc,
        ← List.append_assoc, ← List.append_assoc] at h
      obtain ⟨hfront, rfl⟩ := append_render_inj (List.append_cancel_right h)
        getLast?_append_listed_mem getLast?_append_listed_mem
      obtain ⟨rfl, rfl⟩ := ih hfront
      exact ⟨rfl, rfl⟩

/-- References with spaces between them can be cut off from the right. -/
theorem append_joined_inj {a b : List Char} {is js : List Inclusion}
    (h : a ++ '[' :: (Text.joined " " (is.map (·.render))).toList =
      b ++ '[' :: (Text.joined " " (js.map (·.render))).toList) : a = b ∧ is = js := by
  have hquote : ∀ {a b : List Char} {is : List Inclusion} {i : Inclusion},
      a ++ ['['] ≠ b ++ (listed is ++ i.render.toList) := by
    intro a b is i heq
    have hlast := congrArg List.getLast? heq
    rw [← List.append_assoc, getLast?_append_render, List.getLast?_concat] at hlast
    exact absurd hlast (by decide)
  cases is using List.reverseRecOn with
  | nil =>
    cases js using List.reverseRecOn with
    | nil => exact ⟨List.append_cancel_right h, rfl⟩
    | append_singleton js j => exact absurd (joined_concat js j ▸ h) hquote
  | append_singleton is i =>
    cases js using List.reverseRecOn with
    | nil => exact absurd (joined_concat is i ▸ h.symm) hquote
    | append_singleton js j =>
      rw [joined_concat, joined_concat, ← List.append_assoc, ← List.append_assoc] at h
      obtain ⟨hfront, rfl⟩ := append_render_inj h getLast?_append_listed_mem
        getLast?_append_listed_mem
      obtain ⟨rfl, rfl⟩ := append_listed_inj hfront
      exact ⟨rfl, rfl⟩

end Inclusion

/-! ## Programs -/

namespace Program

/-- Well-formed programs that are shown alike are the same. -/
theorem render_inj {p q : Program} (hp : p.WellFormed) (hq : q.WellFormed)
    (h : p.render = q.render) : p = q := by
  obtain ⟨x, is, cs⟩ := p
  obtain ⟨y, js, ds⟩ := q
  -- The line feed behind the references comes first: the name is known only to its right.
  have hlines : ('\x7b' :: (x.toList ++ ", includes ".toList) ++
      '[' :: (Text.joined " " (is.map (·.render))).toList) ++ [']'] ++
        '\n' :: ((Text.joined "\n" (cs.map (·.render))).toList ++ ['\x7d']) =
      ('\x7b' :: (y.toList ++ ", includes ".toList) ++
      '[' :: (Text.joined " " (js.map (·.render))).toList) ++ [']'] ++
        '\n' :: ((Text.joined "\n" (ds.map (·.render))).toList ++ ['\x7d']) := by
    simpa [render] using congrArg String.toList h
  have hbracket : ∀ a : List Char, (a ++ [']']).getLast? ≠ some '\x7d' := by
    intro a
    rw [List.getLast?_concat]
    decide
  obtain ⟨hfront, hcircuits⟩ := Text.append_guarded_inj hlines (Circuit.guarded_lines hp.circuits)
    (Circuit.guarded_lines hq.circuits) (hbracket _) (hbracket _)
  obtain ⟨hname, rfl⟩ := Inclusion.append_joined_inj (List.append_cancel_right hfront)
  obtain rfl : x = y :=
    String.toList_inj.mp (List.append_cancel_right (List.cons.inj hname).2)
  obtain ⟨rfl, -⟩ := joined_append_inj Circuit.opens
    (fun c hc => ⟨hp.circuits c hc, Circuit.tellsApart (hp.circuits c hc)⟩) hq.circuits rfl
    (by decide) (by decide) (by decide) hcircuits
  rfl

/-- The text of a program that is read says which program it is: programs that are shown alike are
the same, whatever files they come from. -/
theorem eq_of_render_eq {text text' : List Char} {file file' : String} {p q : Program}
    (hp : parse text file = .ok p) (hq : parse text' file' = .ok q) (h : p.render = q.render) :
    p = q :=
  render_inj (wellFormed_of_parse hp) (wellFormed_of_parse hq) h

/-- Two spellings of one program, in whose name the text behind names is found again. -/
theorem eq_of_render_eq_respelled :
    let text := "name: 'a, includes [\"b\"]'; include name 'c';
      circuit f(x) -> (y) \x7b clock 2 s \x7b x & 1 -> y; \x7d \x7d".toList
    let text' := "name:\"a, includes [\\\"b\\\"]\";circuit f(x,)->(y)\x7bclock 2000 ms\x7b
      ((x)&(1))->(y,);\x7d\x7d include name \"c\";# last".toList
    let shown := "\x7ba, includes [\"b\"], includes [name:\"c\"]\n" ++
      "f (x) -> (y) \x7b<clock 2s () [<pipe ((x & <bit 1>)) -> (y)>]>\x7d\x7d"
    ∃ p q : Program, parse text "here" = .ok p ∧ parse text' "there" = .ok q ∧
      p.render = shown ∧ q.render = shown ∧ p = q := by
  intro text text' shown
  let p : Program := ⟨"a, includes [\"b\"]", [⟨true, "c"⟩],
    [⟨"f", ["x"], ["y"], [.clock ⟨2000000000, by decide⟩ none
      [.pipe [.binary (.register "x") "&" (.bit true)] [.register "y"]]]⟩]⟩
  have hp : parse text "here" = .ok p := (sameReading_iff _ _).mp (by decide +kernel)
  have hq : parse text' "there" = .ok p := (sameReading_iff _ _).mp (by decide +kernel)
  have hshown : p.render = shown := by decide +kernel
  exact ⟨p, p, hp, hq, hshown, hshown, eq_of_render_eq hp hq rfl⟩

end Program

end CircuitText
