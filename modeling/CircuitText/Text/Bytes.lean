/-!
# Texts as bytes

Files and streams hold bytes; a text is read from them, and written to them, in UTF-8.

* `encode` --- the bytes of a text;
* `decode?` --- the text of some bytes, unless they are not valid UTF-8;
* `decode?_encode` --- what is written can be read back.
-/

namespace CircuitText
namespace Text

/-- The bytes of a text. -/
def encode (text : String) : List UInt8 := text.toByteArray.data.toList

/-- The text of some bytes, if they are valid UTF-8. -/
def decode? (bytes : List UInt8) : Option String := String.fromUTF8? bytes.toByteArray

/-- What is written can be read back. -/
theorem decode?_encode (text : String) : decode? (encode text) = some text := by
  have h : (encode text).toByteArray = text.toByteArray :=
    ByteArray.ext (by rw [List.data_toByteArray, encode, Array.toArray_toList])
  unfold decode? String.fromUTF8?
  rw [h, dif_pos text.isValidUTF8]
  rfl

/-- What is read is what was written. -/
theorem encode_of_decode? {bytes : List UInt8} {text : String} (h : decode? bytes = some text) :
    encode text = bytes := by
  unfold decode? String.fromUTF8? at h
  split at h
  · simp only [Option.some.injEq] at h
    rw [← h]
    simp [encode, String.fromUTF8]
  · simp at h

end Text
end CircuitText
