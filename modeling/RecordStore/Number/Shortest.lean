import RecordStore.Number.Literal

/-!
# Writing floating-point numbers

A number is written with the fewest decimal digits that read back as it, and of those digit strings
with the nearest one.  The search goes through the grids of multiples of a power of ten, from coarse
to fine, and looks on each at the two neighbours of the number.  What is left open by that rule is a
`NumberStyle`: how a tie goes, and how the digits are laid out.

* `units_of_onGrid?` — what a grid offers reads back as the number.
-/

namespace RecordStore

/-- Which of two equally near decimal magnitudes is taken. -/
inductive Tie where
  | upper
  | even
deriving DecidableEq

namespace Decimal

/-- The number of digits of a whole number. -/
def digitCount (n : Nat) : Nat := (Nat.toDigits 10 n).length

/-- A count of units divided by a power of ten, as a numerator and a denominator. -/
def quotient (units : Nat) (exponent : Int) : Nat × Nat :=
  if 0 ≤ exponent then (units, Binary64.one * Nat.pow 10 exponent.toNat)
  else (units * Nat.pow 10 (-exponent).toNat, Binary64.one)

/-- Of the two multiples of a power of ten around a number, the nearer one that reads back as it. -/
def onGrid? (tie : Tie) (units : Nat) (exponent : Int) : Option Decimal :=
  let (num, den) := quotient units exponent
  let lower : Decimal := ⟨num / den, exponent⟩
  let upper : Decimal := ⟨num / den + 1, exponent⟩
  let rest := 2 * (num % den)
  if lower.units = units then
    if upper.units = units then
      if rest < den then some lower
      else if den < rest then some upper
      else if tie = .even ∧ lower.digits % 2 = 0 then some lower
      else some upper
    else some lower
  else if upper.units = units then some upper
  else none

/-- The decimal magnitude that equals a count of units. -/
def exact (units : Nat) : Decimal := ⟨units * Nat.pow 5 1074, -1074⟩

/-- The coarsest grid that can hold a neighbour of a number. -/
def topExponent (units : Nat) : Int :=
  if Binary64.one ≤ units then digitCount (units / Binary64.one)
  else 2 - digitCount (Binary64.one / units)

/-- Looks through a number of grids, each ten times finer than the one before. -/
def search (tie : Tie) (units : Nat) : Nat → Int → Decimal
  | 0, _ => exact units
  | grids + 1, exponent =>
    match onGrid? tie units exponent with
    | some d => d
    | none => search tie units grids (exponent - 1)

/-- The shortest decimal magnitude that reads back as a count of units; seventeen digits always
suffice, so that twenty grids are more than enough. -/
def shortest (tie : Tie) (units : Nat) : Decimal := search tie units 20 (topExponent units)

/-- What a grid offers reads back as the number. -/
theorem units_of_onGrid? {tie : Tie} {units : Nat} {exponent : Int} {d : Decimal}
    (h : onGrid? tie units exponent = some d) : d.units = units := by
  simp only [onGrid?] at h
  split at h
  · rename_i hl
    split at h
    · rename_i hu
      repeat' split at h
      all_goals
        simp only [Option.some.injEq] at h
        subst h
        simp only [hl, hu]
    · simp only [Option.some.injEq] at h
      subst h
      exact hl
  · split at h
    · rename_i hu
      simp only [Option.some.injEq] at h
      subst h
      exact hu
    · simp at h

end Decimal

/-- How the shortest digits of a number are laid out. -/
structure NumberStyle where
  /-- The choice between two equally near digit strings. -/
  tie : Tie
  /-- The mark after a whole number that is written without an exponent. -/
  wholeMark : String
  /-- The least and greatest decimal exponent written without an exponent part; all, if absent. -/
  positional : Option (Int × Int)

namespace NumberStyle

/-- A minus sign for negative numbers. -/
def sign (negative : Bool) : String := if negative then "-" else ""

/-- The mark of an exponent: its sign, always, and its digits. -/
def exponentMark (e : Int) : String := "e" ++ (if e < 0 then "-" else "+") ++ toString e.natAbs

/-- Digits laid out without an exponent part; `point` digits stand before the point. -/
def layPositional (style : NumberStyle) (digits : List Char) (point : Int) : String :=
  if (digits.length : Int) ≤ point then
    String.ofList (digits ++ List.replicate (point - digits.length).toNat '0') ++ style.wholeMark
  else if 0 < point then
    String.ofList (digits.take point.toNat) ++ "." ++ String.ofList (digits.drop point.toNat)
  else
    "0." ++ String.ofList (List.replicate (-point).toNat '0' ++ digits)

/-- Digits laid out with one of them before the point and an exponent part. -/
def layScientific (digits : List Char) (exponent : Int) : String :=
  let fraction := digits.drop 1
  String.ofList (digits.take 1) ++ (if fraction.isEmpty then "" else "." ++ String.ofList fraction)
    ++ exponentMark exponent

/-- The text of a decimal magnitude. -/
def writeDecimal (style : NumberStyle) (d : Decimal) : String :=
  let digits := Nat.toDigits 10 d.digits
  let exponent := digits.length + d.exponent - 1
  let positional := match style.positional with
    | none => true
    | some (least, greatest) => decide (least ≤ exponent ∧ exponent ≤ greatest)
  if positional then style.layPositional digits (exponent + 1)
  else layScientific digits exponent

/-- The text of a floating-point number. -/
def write (style : NumberStyle) : Binary64 → String
  | .nan => "NaN"
  | .infinity s => sign s ++ "inf"
  | .finite s units =>
    if units = 0 then sign s ++ "0" ++ style.wholeMark
    else sign s ++ style.writeDecimal (Decimal.shortest style.tie units)

end NumberStyle

end RecordStore
