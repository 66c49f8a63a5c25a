import RecordStore.Expression.Context
import RecordStore.Expression.Update

/-!
# Carrying out an update

The actions of an update change a record one after the other, and each sees what the earlier ones did.
A new value is computed before its path is looked at.
-/

namespace RecordStore

/-- The value of an operand that an update needs. -/
def Operand.demand (ctx : Context) (item : Item) : Operand → Except ExpressionFault Value
  | .value label => ctx.valueOf label
  | .path p => do
    match ← ctx.resolve item p with
    | some v => return v
    | none => .error (.missingAttribute p)

/-- The value of a computed number: a whole one below 2^53 in magnitude keeps no fraction mark and no
sign on zero. -/
def Value.ofComputed (x : Binary64) : Value :=
  match x.exactInt? with
  | some i => .ofInt i
  | none => .ofBinary64 x

/-- Computes with two number values. -/
def Value.arithmetic (op : Binary64 → Binary64 → Binary64) (a b : Value) :
    Except ExpressionFault Value :=
  match a.toBinary64?, b.toBinary64? with
  | some x, some y => .ok (.ofComputed (op x y))
  | _, _ => .error .notNumbers

/-- The value that an action sets its path to. -/
def NewValue.compute (ctx : Context) (item : Item) : NewValue → Except ExpressionFault Value
  | .operand o => o.demand ctx item
  | .sum left right => do
    let a ← left.demand ctx item
    let b ← right.demand ctx item
    Value.arithmetic .add a b
  | .difference left right => do
    let a ← left.demand ctx item
    let b ← right.demand ctx item
    Value.arithmetic .sub a b

namespace Item

/-- Sets an entry of the map to which some names lead; absent if they lead to no map. -/
def putAt (item : Item) (last : String) (v : Value) : List String → Option Item
  | [] => some (item.insert last v)
  | name :: rest =>
    match item.get? name with
    | some (.map entries) =>
      (putAt entries last v rest).map fun changed => item.insert name (.map changed)
    | _ => none

end Item

namespace Context

/-- Sets the attribute to which a path leads.  The last segment is looked up before the others. -/
def assign (ctx : Context) (item : Item) (path : Path) (v : Value) :
    Except ExpressionFault Item :=
  match path.getLast? with
  | none => .error .emptyPath
  | some segment => do
    let last ← ctx.nameOf segment
    let parents ← path.dropLast.mapM ctx.nameOf
    match Item.putAt item last v parents with
    | some changed => return changed
    | none => .error (.parentNotMap path)

end Context

/-- Carries out one action. -/
def SetAction.apply (ctx : Context) (item : Item) (a : SetAction) : Except ExpressionFault Item := do
  let v ← a.value.compute ctx item
  ctx.assign item a.path v

namespace Update

/-- Carries out the actions of an update, in order. -/
def apply (ctx : Context) (item : Item) : Update → Except ExpressionFault Item
  | [] => .ok item
  | a :: rest => do
    let changed ← a.apply ctx item
    apply ctx changed rest

end Update

end RecordStore
