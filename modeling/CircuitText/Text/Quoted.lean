import CircuitText.Text.Visible

/-!
# Quoted texts

A text that may hold anything is shown between double quotes.  The quote, the backslash and the
four commonest control characters are written as a backslash and a letter, every other character
that cannot be seen on its own by its code point in hexadecimal, and the rest as it is.  An
apostrophe needs no backslash between double quotes.

* `shown` --- how one character is written;
* `quoted` --- how a text is written.
-/

namespace CircuitText
namespace Text

/-- A character by its code point, in lower-case hexadecimal without leading zeros. -/
def codePoint (c : Char) : List Char :=
  ['\\', 'u', '\x7b'] ++ Nat.toDigits 16 c.toNat ++ ['\x7d']

/-- How a character is written between double quotes. -/
def shown (c : Char) : List Char :=
  match c with
  | '\x00' => ['\\', '0']
  | '\t' => ['\\', 't']
  | '\r' => ['\\', 'r']
  | '\n' => ['\\', 'n']
  | '"' => ['\\', '"']
  | '\\' => ['\\', '\\']
  | c => if isVisible c then [c] else codePoint c

/-- A text between double quotes. -/
def quoted (text : List Char) : List Char := '"' :: text.flatMap shown ++ ['"']

theorem quoted_nil : quoted [] = ['"', '"'] := rfl

/-- Between the quotes a text is written character by character. -/
theorem quoted_append (first second : List Char) :
    quoted (first ++ second) = '"' :: (first.flatMap shown ++ (second.flatMap shown ++ ['"'])) := by
  simp [quoted]

end Text
end CircuitText
