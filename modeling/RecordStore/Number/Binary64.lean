/-!
# Binary floating-point numbers of 64 bits

A finite number is a sign and a whole count of *units* of 2^-1074, the smallest positive number of
the format.  All arithmetic is exact on units and rounds once at its end, to the nearest number with
53 significant bits and, of two equally near ones, to the even one.

* `order_swap` — exchanging two numbers reverses their order.
-/

namespace RecordStore

/-- A floating-point number: not a number, an infinity, or a signed count of units of 2^-1074. -/
inductive Binary64 where
  | nan
  | infinity (negative : Bool)
  | finite (negative : Bool) (units : Nat)
deriving DecidableEq

namespace Binary64

/-- The number of significant bits. -/
def precision : Nat := 53

/-- One in units. -/
def one : Nat := Nat.pow 2 1074

/-- The least magnitude in units that is too large for the format: 2^1024. -/
def limit : Nat := Nat.pow 2 2098

/-- The whole number nearest to `num / den`; a half goes to the even neighbour. -/
def roundHalfEven (num den : Nat) : Nat :=
  let below := num / den
  let rest := 2 * (num % den)
  if rest < den then below
  else if den < rest then below + 1
  else if below % 2 = 0 then below
  else below + 1

/-- The count of units nearest to `num / den` that has at most 53 significant bits. -/
def roundUnits (num den : Nat) : Nat :=
  let spacing := Nat.pow 2 ((num / den).log2 + 1 - precision)
  roundHalfEven num (den * spacing) * spacing

/-- The number nearest to `num / den` units, infinite when that is too large. -/
def ofUnits (negative : Bool) (num den : Nat) : Binary64 :=
  let units := roundUnits num den
  if units < limit then .finite negative units else .infinity negative

/-- Zero. -/
def zero : Binary64 := .finite false 0

/-- The number nearest to a whole number. -/
def ofInt (i : Int) : Binary64 := ofUnits (i < 0) (i.natAbs * one) 1

/-- A sign applied to a magnitude. -/
def signed (negative : Bool) (magnitude : Nat) : Int :=
  if negative then -(magnitude : Int) else magnitude

/-- The place of a number on the line of units, with the infinities at the limit. -/
def position : Binary64 → Int
  | .nan => 0
  | .infinity s => signed s limit
  | .finite s u => signed s u

/-- How two numbers compare; what is not a number compares with nothing. -/
def order : Binary64 → Binary64 → Option Ordering
  | .nan, _ => none
  | _, .nan => none
  | a, b => some (compare a.position b.position)

/-- The number with the other sign. -/
def neg : Binary64 → Binary64
  | .nan => .nan
  | .infinity s => .infinity (!s)
  | .finite s u => .finite (!s) u

/-- The sum; an exact zero is negative only as the sum of two negative zeros. -/
def add : Binary64 → Binary64 → Binary64
  | .nan, _ => .nan
  | _, .nan => .nan
  | .infinity s, .infinity t => if s = t then .infinity s else .nan
  | .infinity s, .finite .. => .infinity s
  | .finite .., .infinity t => .infinity t
  | .finite s u, .finite t v =>
    let sum := signed s u + signed t v
    if sum = 0 then .finite (s && t) 0 else ofUnits (sum < 0) sum.natAbs 1

/-- The difference. -/
def sub (a b : Binary64) : Binary64 := add a b.neg

/-- The whole number that a number holds exactly, if it is whole and below 2^53 in magnitude. -/
def exactInt? : Binary64 → Option Int
  | .finite s u =>
    if u % one = 0 ∧ u < Nat.pow 2 precision * one then some (signed s (u / one)) else none
  | _ => none

/-- The whole part, clamped to the range from `lo` to `hi`; what is not a number gives zero. -/
def truncateTo (lo hi : Int) : Binary64 → Int
  | .nan => 0
  | .infinity s => if s then lo else hi
  | .finite s u =>
    let i := signed s (u / one)
    if i < lo then lo else if hi < i then hi else i

/-- Whether a number is neither infinite nor undefined. -/
def isFinite : Binary64 → Bool
  | .finite .. => true
  | _ => false

/-- Exchanging two numbers reverses their order. -/
theorem order_swap (a b : Binary64) : order b a = (order a b).map Ordering.swap := by
  have swap (i j : Int) : some (compare j i) = (some (compare i j)).map Ordering.swap :=
    congrArg some (Std.OrientedOrd.eq_swap)
  cases a <;> cases b <;> first | rfl | exact swap _ _

end Binary64

end RecordStore
