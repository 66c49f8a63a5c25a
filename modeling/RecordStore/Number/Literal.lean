import RecordStore.Number.Binary64

/-!
# Reading numbers

A whole number is an optional sign and digits.  A decimal number is an optional sign and digits with
at most one point among them, then an optional exponent; the words `inf`, `infinity` and `nan` in any
letter case are numbers too.  No blanks and no separators are allowed.

* `splitSign_of_digits` — digits alone have no sign.
-/

namespace RecordStore

/-- A decimal magnitude: the number `digits · 10^exponent`. -/
structure Decimal where
  digits : Nat
  exponent : Int
deriving DecidableEq

namespace Decimal

/-- The count of units nearest to a decimal magnitude. -/
def units (m : Decimal) : Nat :=
  if 0 ≤ m.exponent then
    Binary64.roundUnits (m.digits * Nat.pow 10 m.exponent.toNat * Binary64.one) 1
  else
    Binary64.roundUnits (m.digits * Binary64.one) (Nat.pow 10 (-m.exponent).toNat)

/-- The number nearest to a signed decimal magnitude.  Powers of ten far outside the format are
settled without computing them; `width` bounds the number of digits. -/
def toBinary64 (m : Decimal) (negative : Bool) (width : Nat) : Binary64 :=
  if m.digits = 0 then .finite negative 0
  else if 400 < m.exponent then .infinity negative
  else if m.exponent + width < -400 then .finite negative 0
  else if m.units < Binary64.limit then .finite negative m.units
  else .infinity negative

end Decimal

namespace Literal

/-- The number that a run of digits spells; there has to be at least one. -/
def digits? (cs : List Char) : Option Nat :=
  if cs ≠ [] ∧ cs.all Char.isDigit then some (Nat.ofDigitChars 10 cs 0) else none

/-- Takes an optional sign off the front of a text: whether it is negative, and the rest. -/
def splitSign : List Char → Bool × List Char
  | '-' :: rest => (true, rest)
  | '+' :: rest => (false, rest)
  | cs => (false, cs)

/-- The whole number that a text spells with an optional sign. -/
def wholeNumber? (cs : List Char) : Option Int :=
  let (negative, rest) := splitSign cs
  (digits? rest).map (Binary64.signed negative)

/-- The whole number that a text spells, if it lies in a range. -/
def inRange? (lo hi : Int) (text : String) : Option Int :=
  (wholeNumber? text.toList).filter fun i => decide (lo ≤ i ∧ i ≤ hi)

/-- The least 64-bit signed integer: -2^63. -/
def int64Min : Int := -9223372036854775808

/-- The greatest 64-bit signed integer: 2^63 - 1. -/
def int64Max : Int := 9223372036854775807

/-- The greatest 64-bit unsigned integer: 2^64 - 1. -/
def uint64Max : Int := 18446744073709551615

/-- The 64-bit signed integer that a text spells. -/
def int64? (text : String) : Option Int := inRange? int64Min int64Max text

/-- The unsigned integer up to `hi` that a text spells; a minus sign is refused, also before zero. -/
def unsigned? (hi : Int) (text : String) : Option Int :=
  if text.toList.head? = some '-' then none else inRange? 0 hi text

/-- The exponent that follows the digits: nothing, or `e` and a whole number. -/
def exponent? : List Char → Option Int
  | [] => some 0
  | c :: rest => if c = 'e' ∨ c = 'E' then wholeNumber? rest else none

/-- The decimal magnitude that a text without a sign spells. -/
def magnitude? (cs : List Char) : Option Decimal :=
  let whole := cs.takeWhile Char.isDigit
  let rest := cs.dropWhile Char.isDigit
  let (fraction, tail) :=
    match rest with
    | '.' :: more => (more.takeWhile Char.isDigit, more.dropWhile Char.isDigit)
    | _ => ([], rest)
  match digits? (whole ++ fraction), exponent? tail with
  | some digits, some exponent => some ⟨digits, exponent - fraction.length⟩
  | _, _ => none

/-- The floating-point number that a text spells. -/
def binary64? (text : String) : Option Binary64 :=
  let (negative, rest) := splitSign text.toList
  let word := rest.map Char.toLower
  if word = "inf".toList ∨ word = "infinity".toList then some (.infinity negative)
  else if word = "nan".toList then some .nan
  else (magnitude? rest).map fun m => m.toBinary64 negative rest.length

/-- Digits alone have no sign. -/
theorem splitSign_of_digits {cs : List Char} (h : cs.all Char.isDigit) :
    splitSign cs = (false, cs) := by
  unfold splitSign
  split
  · simp at h
  · simp at h
  · rfl

end Literal

end RecordStore
