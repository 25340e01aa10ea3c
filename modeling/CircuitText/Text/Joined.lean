/-!
# Joined texts

Lists are written with the same text between any two neighbours and nothing at the ends.
-/

namespace CircuitText
namespace Text

/-- The texts of a list in order, with `separator` between neighbours. -/
def joined (separator : String) : List String → String
  | [] => ""
  | [text] => text
  | text :: next :: more => text ++ separator ++ joined separator (next :: more)

@[simp] theorem joined_nil (separator : String) : joined separator [] = "" := rfl

@[simp] theorem joined_singleton (separator text : String) : joined separator [text] = text := rfl

theorem joined_cons {more : List String} (separator text : String) (h : more ≠ []) :
    joined separator (text :: more) = text ++ separator ++ joined separator more := by
  cases more with
  | nil => exact absurd rfl h
  | cons next more => rfl

end Text
end CircuitText
