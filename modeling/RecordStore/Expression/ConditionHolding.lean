import RecordStore.Expression.ConditionReading
import RecordStore.Expression.Context

/-!
# Whether a condition holds

A condition is tried on a record.  A comparison with an attribute that is not there is false, and so is
one between values that do not compare; only an alias, a placeholder or a path that means nothing is a
fault.
-/

namespace RecordStore

/-- Whether two values stand in a comparison. -/
def Comparison.holds : Comparison → Value → Value → Bool
  | .equal, a, b => a.same b
  | .notEqual, a, b => !a.same b
  | .lessThan, a, b => a.order b = some .lt
  | .lessOrEqual, a, b => a.order b = some .lt || a.order b = some .eq
  | .greaterThan, a, b => a.order b = some .gt
  | .greaterOrEqual, a, b => a.order b = some .gt || a.order b = some .eq

/-- Whether a text or a run of bytes begins with another. -/
def Value.beginsWith : Value → Value → Bool
  | .string s, .string p => p.toList.isPrefixOf s.toList
  | .bytes s, .bytes p => p.isPrefixOf s
  | _, _ => false

/-- What an operand stands for on a record, if anything. -/
def Operand.find (ctx : Context) (item : Item) : Operand → Except ExpressionFault (Option Value)
  | .path p => ctx.resolve item p
  | .value label => (ctx.valueOf label).map some

namespace Condition

/-- Whether a condition holds of a record.  Operands are looked up from left to right, and the second
part of a conjunction or alternative is tried only if the first leaves the answer open. -/
def holds (ctx : Context) (item : Item) : Condition → Except ExpressionFault Bool
  | .compare op left right => do
    let l ← left.find ctx item
    let r ← right.find ctx item
    match l, r with
    | some a, some b => return op.holds a b
    | _, _ => return false
  | .between subject low high => do
    let s ← subject.find ctx item
    let l ← low.find ctx item
    let h ← high.find ctx item
    match s, l, h with
    | some v, some a, some b =>
      return Comparison.greaterOrEqual.holds v a && Comparison.lessOrEqual.holds v b
    | _, _, _ => return false
  | .and left right => do
    if ← left.holds ctx item then right.holds ctx item else return false
  | .or left right => do
    if ← left.holds ctx item then return true else right.holds ctx item
  | .not inner => do
    let b ← inner.holds ctx item
    return !b
  | .present path => do
    let found ← ctx.resolve item path
    return found.isSome
  | .absent path => do
    let found ← ctx.resolve item path
    return found.isNone
  | .beginsWith subject beginning => do
    let s ← subject.find ctx item
    let b ← beginning.find ctx item
    match s, b with
    | some v, some p => return v.beginsWith p
    | _, _ => return false

/-- Whether the condition that a text spells holds of a record. -/
def textHolds (ctx : Context) (item : Item) (text : String) : Except ExpressionFault Bool := do
  let c ← ofText text
  c.holds ctx item

/-- Whether a condition holds that may be absent; an absent one always does. -/
def optionalHolds (ctx : Context) (item : Item) : Option String → Except ExpressionFault Bool
  | some text => textHolds ctx item text
  | none => .ok true

end Condition

end RecordStore
