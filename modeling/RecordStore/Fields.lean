import RecordStore.OrderedDict
import RecordStore.Value.Order
import RecordStore.Value.Written

/-!
# Fields

What a query, a filter, a guard or an update says about the fields of a record: at most one
`Descriptor` for each field name.  A descriptor is a test in the first three uses and an assignment in
the last; `Descriptor.assignment?` says which ones can be assigned.
-/

namespace RecordStore

/-- What is said about one field. -/
inductive Descriptor where
  /-- The field equals a value, or is set to it. -/
  | equals (value : Value)
  /-- The field is less than a value. -/
  | lessThan (value : Value)
  /-- The field is a value or less. -/
  | lessOrEqual (value : Value)
  /-- The field is a value or more. -/
  | greaterOrEqual (value : Value)
  /-- The field begins with a value. -/
  | beginsWith (value : Value)
  /-- The field lies between two values, both included. -/
  | between (low high : Value)
  /-- The field equals one of two values. -/
  | either (first second : Value)
  /-- The field grows by a number; as a test it is equality. -/
  | increment (delta : Value)
  /-- Each listed entry of the field, a map, equals a value, or is set to it. -/
  | nested (entries : OrderedDict Value)
deriving DecidableEq

/-- What an update does to one field. -/
inductive Assignment where
  /-- The field becomes a value. -/
  | set (value : Value)
  /-- The field grows by a number. -/
  | increment (delta : Value)
  /-- Each listed entry of the field, a map, becomes a value. -/
  | nested (entries : OrderedDict Value)
deriving DecidableEq

/-- The assignment that a descriptor asks for; a comparison asks for none. -/
def Descriptor.assignment? : Descriptor → Option Assignment
  | .equals v => some (.set v)
  | .increment v => some (.increment v)
  | .nested es => some (.nested es)
  | _ => none

/-- The form of a descriptor in messages. -/
def Descriptor.written : Descriptor → String
  | .equals v => "Equals(" ++ v.written ++ ")"
  | .lessThan v => "LessThan(" ++ v.written ++ ")"
  | .lessOrEqual v => "LessOrEqual(" ++ v.written ++ ")"
  | .greaterOrEqual v => "GreaterOrEqual(" ++ v.written ++ ")"
  | .beginsWith v => "BeginsWith(" ++ v.written ++ ")"
  | .between v w => "Between(" ++ v.written ++ ", " ++ w.written ++ ")"
  | .either v w => "Or(" ++ v.written ++ ", " ++ w.written ++ ")"
  | .increment v => "Increment(" ++ v.written ++ ")"
  | .nested es =>
    "NestedPath(\x7b" ++ ", ".intercalate (Value.writtenEntries es.entries) ++ "\x7d)"

/-- Field names with what is said about each. -/
abbrev Fields := OrderedDict Descriptor

namespace Fields

/-- The fields that demand equality with every attribute of a record. -/
def ofItem (item : Item) : Fields :=
  .ofList (item.entries.map fun e => (e.1, .equals e.2))

/-- The values of plain equalities; absent if any descriptor says something else. -/
def plainEntries? : List (String × Descriptor) → Option (List (String × Value))
  | [] => some []
  | (name, .equals v) :: rest => (plainEntries? rest).map ((name, v) :: ·)
  | _ :: _ => none

/-- The record that a set of plain equalities describes; absent if any field says something else. -/
def toItem? (fields : Fields) : Option Item := (plainEntries? fields.entries).map Dict.mk

end Fields

end RecordStore
