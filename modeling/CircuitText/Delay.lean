import CircuitText.Text.Joined

/-!
# Delays

A clock repeats its body after a fixed delay.  A delay is a whole number of nanoseconds, and stays
below `2 ^ 64` seconds.

In a source text a delay is an amount and a unit.  The amount is a number below `2 ^ 64` without a
minus sign, and a fraction is allowed only if it is zero, so that nothing is ever rounded.  Of the
six units, five can be written; the microsecond appears only when delays are shown.

A delay is shown as a multiple of the largest unit that divides it.

* `Delay.amount` --- the amount that a number stands for, or why it stands for none;
* `Delay.of?` --- the delay of an amount and a unit, unless it is too long;
* `Delay.render` --- how a delay is shown.
-/

namespace CircuitText

/-! ## Units of time -/

/-- A unit of time. -/
inductive TimeUnit where
  | hour
  | minute
  | second
  | millisecond
  | microsecond
  | nanosecond
  deriving DecidableEq, Repr

namespace TimeUnit

/-- The length of a unit in nanoseconds. -/
def size : TimeUnit → Nat
  | .hour => 3_600_000_000_000
  | .minute => 60_000_000_000
  | .second => 1_000_000_000
  | .millisecond => 1_000_000
  | .microsecond => 1_000
  | .nanosecond => 1

/-- How a unit is shown. -/
def symbol : TimeUnit → String
  | .hour => "h"
  | .minute => "m"
  | .second => "s"
  | .millisecond => "ms"
  | .microsecond => "µs"
  | .nanosecond => "ns"

/-- The units that a source text may use, in the order in which messages list them. -/
def written : List TimeUnit := [.nanosecond, .millisecond, .second, .minute, .hour]

/-- The list of the units that a source text may use. -/
def writtenSymbols : String := Text.joined ", " (written.map symbol)

/-- The unit that a word of a source text stands for. -/
def ofSymbol? (word : String) : Option TimeUnit := written.find? fun u => u.symbol == word

theorem size_pos (u : TimeUnit) : 0 < u.size := by cases u <;> decide

/-- The units that can be written are all but the microsecond. -/
theorem ofSymbol?_symbol (u : TimeUnit) :
    ofSymbol? u.symbol = if u = .microsecond then none else some u := by
  cases u <;> decide

end TimeUnit

/-! ## Delays -/

/-- The bound of the amounts that can be written: `2 ^ 64`. -/
def amountLimit : Nat := UInt64.size

/-- The bound of all delays in nanoseconds: `2 ^ 64` seconds. -/
def delayLimit : Nat := amountLimit * TimeUnit.second.size

/-- A length of time in whole nanoseconds. -/
structure Delay where
  nanoseconds : Nat
  lt_limit : nanoseconds < delayLimit
  deriving DecidableEq

/-- Why a number stands for no amount of time. -/
inductive AmountError where
  /-- It has a minus sign, or a fraction that is not zero. -/
  | notWhole
  /-- It has no digits, or something between them. -/
  | malformed
  /-- It is `amountLimit` or more. -/
  | tooLong
  deriving DecidableEq, Repr

namespace Delay

/-- The delay of so many nanoseconds, if it is below the bound. -/
def ofNanoseconds? (n : Nat) : Option Delay :=
  if h : n < delayLimit then some ⟨n, h⟩ else none

/-- The delay of an amount and a unit, if it is below the bound. -/
def of? (amount : Nat) (u : TimeUnit) : Option Delay := ofNanoseconds? (amount * u.size)

/-- The amount of time that a number stands for. -/
def amount (number : List Char) : Except AmountError Nat :=
  let whole := number.takeWhile (· != '.')
  let fraction := (number.dropWhile (· != '.')).drop 1
  let digits := whole.dropWhile (· == '+')
  if whole.head? = some '-' ∨ fraction.any (· != '0') then .error .notWhole
  else if digits = [] ∨ digits.any (fun c => !c.isDigit) then .error .malformed
  else
    let n := Nat.ofDigitChars 10 digits 0
    if n < amountLimit then .ok n else .error .tooLong

/-- The largest unit that a delay is a whole multiple of. -/
def unit (d : Delay) : TimeUnit :=
  ([.hour, .minute, .second, .millisecond, .microsecond].find? fun u =>
    d.nanoseconds % u.size == 0).getD .nanosecond

/-- How a delay is shown. -/
def render (d : Delay) : String :=
  if d.nanoseconds = 0 then "0" ++ TimeUnit.second.symbol
  else (d.nanoseconds / d.unit.size).repr ++ d.unit.symbol

/-- A delay is a whole multiple of the unit it is shown in. -/
theorem size_unit_dvd (d : Delay) : d.unit.size ∣ d.nanoseconds := by
  unfold unit
  cases h : ([.hour, .minute, .second, .millisecond, .microsecond] : List TimeUnit).find? fun u =>
      d.nanoseconds % u.size == 0 with
  | none => exact Nat.one_dvd _
  | some u =>
    have hu := List.find?_some h
    exact Nat.dvd_of_mod_eq_zero (by simpa using hu)

/-- Amounts that can be written fit the three smaller units. -/
theorem isSome_of? {n : Nat} {u : TimeUnit} (hn : n < amountLimit)
    (hu : u.size ≤ TimeUnit.second.size) : (of? n u).isSome = true := by
  have h : n * u.size < delayLimit :=
    Nat.lt_of_le_of_lt (Nat.mul_le_mul_left n hu)
      ((Nat.mul_lt_mul_right TimeUnit.second.size_pos).mpr hn)
  simp [of?, ofNanoseconds?, h]

end Delay

end CircuitText
