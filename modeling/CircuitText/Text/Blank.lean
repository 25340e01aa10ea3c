import CircuitText.Text.CodeRange

/-!
# Blanks

The characters that separate tokens without being part of one: those with the Unicode property
`White_Space`.  The line feed is one of them and the only one that starts a new line.

* `isBlank` --- the character class;
* `trimBlanks` --- a text without the blanks at its two ends.
-/

namespace CircuitText
namespace Text

/-- The code points with the property `White_Space`. -/
def blankRanges : List (Nat × Nat) :=
  [(0x9, 0xD), (0x20, 0x20), (0x85, 0x85), (0xA0, 0xA0), (0x1680, 0x1680), (0x2000, 0x200A),
    (0x2028, 0x2029), (0x202F, 0x202F), (0x205F, 0x205F), (0x3000, 0x3000)]

/-- A character that only separates. -/
def isBlank (c : Char) : Bool := inRanges c.toNat blankRanges

/-- The text without the blanks at its two ends. -/
def trimBlanks (text : List Char) : List Char :=
  ((text.dropWhile isBlank).reverse.dropWhile isBlank).reverse

theorem ascending_blankRanges : Ascending 0 blankRanges = true := by decide

theorem isBlank_lineFeed : isBlank '\n' = true := by decide

/-- Every white-space character of ASCII is a blank. -/
theorem isBlank_of_isWhitespace {c : Char} (h : c.isWhitespace = true) : isBlank c = true := by
  simp only [Char.isWhitespace, Bool.or_eq_true, decide_eq_true_eq] at h
  rcases h with ((rfl | rfl) | rfl) | rfl <;> decide

end Text
end CircuitText
