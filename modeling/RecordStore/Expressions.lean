import RecordStore.Clause
import RecordStore.Expression.Context

/-!
# Compiled requests

What a store is handed instead of fields: up to four expressions, with one table of names and one of
values for all of them.  A table with no entries is left out.
-/

namespace RecordStore

/-- The expressions of one request and the tables that they share. -/
structure Expressions where
  names : Option AliasTable
  values : Option ValueTable
  keyCondition : Option String
  filter : Option String
  condition : Option String
  update : Option String
deriving DecidableEq

namespace Expressions

/-- No expressions at all. -/
def empty : Expressions := ⟨none, none, none, none, none, none⟩

/-- Expressions with the tables of what has been handed out for them. -/
def withBindings (e : Expressions) (b : Bindings) : Expressions :=
  { e with
    names := if b.names.isEmpty then none else some b.names
    values := if b.values.isEmpty then none else some b.values }

/-- The scope that keeps the placeholders of a guard apart from those of its update. -/
def guardScope : String := "if"

/-- The key condition and the filter of a query. -/
def forQuery (key : Fields) (filter : Option Fields) : Expressions :=
  let (keyCondition, b) := (Clause.conditionText none (some key)).run .empty
  let (filter, b) := (Clause.conditionText none filter).run b
  { empty with keyCondition, filter }.withBindings b

/-- The filter of a scan. -/
def forScan (filter : Option Fields) : Expressions :=
  let (filter, b) := (Clause.conditionText none filter).run .empty
  { empty with filter }.withBindings b

/-- An update and the guard that has to hold for it; only assignments can be in an update. -/
def forUpdate (fields : Fields) (condition : Option Fields) : Except Error Expressions :=
  match Clause.assignments fields with
  | .error fault => .error (.argument fault)
  | .ok assignments =>
    let (update, b) := (Clause.updateText assignments).run .empty
    let (condition, b) := (Clause.conditionText (some guardScope) condition).run b
    .ok ({ empty with update, condition }.withBindings b)

/-- What the aliases and placeholders of a request stand for. -/
def context (e : Expressions) : Context := ⟨e.names.getD .empty, e.values.getD .empty⟩

/-- The alias of a field name, entered into the table of names if it has none yet. -/
def addName (e : Expressions) (field : String) : String × Expressions :=
  let (a, names) := Naming.aliasOf (e.names.getD .empty) field
  (a, { e with names := some names })

/-- One more clause after an expression that may be absent. -/
def conjoin (existing : Option String) (clause : String) : String :=
  match existing with
  | some text => text ++ " AND " ++ clause
  | none => clause

/-- Adds a clause to the filter. -/
def andFilter (e : Expressions) (clause : String) : Expressions :=
  { e with filter := some (conjoin e.filter clause) }

end Expressions

namespace Fields

/-- The table of aliases that a set of fields needs as a condition. -/
def aliasTable (fields : Option Fields) : Option AliasTable := (Expressions.forScan fields).names

/-- The table of placeholders that a set of fields needs as a condition. -/
def valueTable (fields : Option Fields) : Option ValueTable := (Expressions.forScan fields).values

/-- The condition that a set of fields stands for. -/
def conditionText (fields : Option Fields) : Option String := (Expressions.forScan fields).filter

/-- The update that a set of fields stands for. -/
def updateText (fields : Fields) : Except Error (Option String) :=
  (Expressions.forUpdate fields none).map Expressions.update

end Fields

end RecordStore
