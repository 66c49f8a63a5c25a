import RecordStore.Expression.Operand
import RecordStore.Naming

/-!
# What aliases and paths stand for

An expression is read against a record and two tables.  A segment that begins with `#` is an alias and
stands for the name in the table of names; any other segment is a name itself.  A path that leads
nowhere is no fault: it just finds nothing.
-/

namespace RecordStore

/-- The tables that give aliases and placeholders their meaning. -/
structure Context where
  names : AliasTable
  values : ValueTable

namespace Context

/-- Whether a segment is an alias. -/
def isAlias (segment : String) : Bool := segment.toList.head? = some '#'

/-- The attribute name that a segment stands for. -/
def nameOf (ctx : Context) (segment : String) : Except ExpressionFault String :=
  if isAlias segment then
    match ctx.names.get? segment with
    | some name => .ok name
    | none => .error (.undefinedName segment)
  else .ok segment

/-- The value that a placeholder stands for. -/
def valueOf (ctx : Context) (label : String) : Except ExpressionFault Value :=
  match ctx.values.get? label with
  | some v => .ok v
  | none => .error (.undefinedValue label)

/-- Follows segments down through maps from what has been found so far.  Every segment has to stand
for a name, also after the way has been lost. -/
def descend (ctx : Context) (found : Option Value) : Path → Except ExpressionFault (Option Value)
  | [] => .ok found
  | segment :: rest => do
    let name ← ctx.nameOf segment
    ctx.descend ((found.bind Value.entries?).bind fun d => d.get? name) rest

/-- What a path finds in a record, if anything. -/
def resolve (ctx : Context) (item : Item) : Path → Except ExpressionFault (Option Value)
  | [] => .error .emptyPath
  | segment :: rest => do
    let name ← ctx.nameOf segment
    ctx.descend (item.get? name) rest

end Context

end RecordStore
