import RecordStore.Value.Basic

/-!
# The order of values

Two values compare only within one scalar type: numbers by magnitude, texts and bytes
lexicographically, `false` before `true`.  Everything else is incomparable.

* `order_swap` — exchanging two values reverses their order.
-/

namespace RecordStore.Value

/-- How two values compare, if they do. -/
def order : Value → Value → Option Ordering
  | .number s, .number t =>
    match Literal.binary64? s, Literal.binary64? t with
    | some x, some y => Binary64.order x y
    | _, _ => none
  | .string s, .string t => some (compare s t)
  | .bytes s, .bytes t => some (compare s t)
  | .bool s, .bool t => some (compare s t)
  | .null, .null => some .eq
  | _, _ => none

/-- Whether one value equals another: by their order where they have one, else structurally. -/
def same (a b : Value) : Bool :=
  match order a b with
  | some o => o.isEq
  | none => a = b

/-- Exchanging two values reverses their order. -/
theorem order_swap (a b : Value) : order b a = (order a b).map Ordering.swap := by
  cases a <;> cases b <;> simp only [order, Option.map_none, Option.map_some]
  case number.number s t =>
    cases Literal.binary64? s <;> cases Literal.binary64? t
    case some.some x y => exact Binary64.order_swap x y
    all_goals rfl
  case string.string s t => exact congrArg some (Std.OrientedOrd.eq_swap)
  case bytes.bytes s t => exact congrArg some (Std.OrientedOrd.eq_swap)
  case bool.bool s t => exact congrArg some (Std.OrientedOrd.eq_swap)
  case null.null => rfl

end RecordStore.Value
