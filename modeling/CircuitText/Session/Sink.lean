import CircuitText.Text.Bytes

/-!
# Writing to a sink

A sink takes bytes, either as many as come or only up to a capacity.  Writing to a full sink stores
what fits and then fails, so that what a sink holds is always the beginning of what was written to
it.

* `Sink` --- the bytes written so far and the room there is for more;
* `Writing` --- something done while writing to a sink, which may fail;
* `Writing.text` --- writes a text.
-/

namespace CircuitText

/-- What goes wrong with a stream of bytes. -/
inductive StreamError where
  /-- What was read is not valid UTF-8. -/
  | notUtf8
  /-- What was written did not fit. -/
  | full
  deriving DecidableEq, Repr

namespace StreamError

/-- The wording of an error. -/
def message : StreamError → String
  | .notUtf8 => "stream did not contain valid UTF-8"
  | .full => "failed to write whole buffer"

end StreamError

/-- What bytes are written to. -/
structure Sink where
  /-- How many bytes there is room for in all; nothing if there is no bound. -/
  capacity : Option Nat
  /-- What was stored at each writing, the latest first. -/
  stored : List (List UInt8)
  deriving DecidableEq, Repr

namespace Sink

/-- A sink that nothing has been written to. -/
def empty (capacity : Option Nat) : Sink := ⟨capacity, []⟩

/-- The bytes written so far. -/
def written (sink : Sink) : List UInt8 := sink.stored.reverse.flatten

/-- How many bytes were written so far. -/
def size (sink : Sink) : Nat := sink.stored.flatten.length

/-- As much of `bytes` as there is room for. -/
def fitting (sink : Sink) (bytes : List UInt8) : List UInt8 :=
  match sink.capacity with
  | none => bytes
  | some capacity => bytes.take (capacity - sink.size)

/-- The sink with as much of `bytes` behind what it holds as there is room for. -/
def store (sink : Sink) (bytes : List UInt8) : Sink :=
  { sink with stored := sink.fitting bytes :: sink.stored }

@[simp] theorem written_empty (capacity : Option Nat) : (empty capacity).written = [] := rfl

theorem length_written (sink : Sink) : sink.written.length = sink.size := by
  simp [written, size, List.length_flatten]

/-- What is stored comes behind what was there. -/
@[simp] theorem written_store (sink : Sink) (bytes : List UInt8) :
    (sink.store bytes).written = sink.written ++ sink.fitting bytes := by
  simp [written, store]

end Sink

/-- Something done while writing to a sink. -/
abbrev Writing (α : Type) : Type := EStateM StreamError Sink α

namespace Writing

/-- Writes bytes; if they do not fit, as many as do. -/
def bytes (bytes : List UInt8) : Writing Unit := fun sink =>
  if sink.fitting bytes = bytes then .ok () (sink.store bytes) else .error .full (sink.store bytes)

/-- Writes a text. -/
def text (text : String) : Writing Unit := bytes (Text.encode text)

end Writing

end CircuitText
