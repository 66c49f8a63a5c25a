import RecordStore.Expression.Condition
import RecordStore.Expression.Update
import RecordStore.Naming

/-!
# From fields to conditions and actions

Each field of a set becomes a clause: the conditions that its descriptor stands for, or the actions
that its assignment asks for.  On the way every field name gets an alias and every value a placeholder
of its own; both are entered into tables that all clauses of one request share.

* `assignments_isOk_iff` — a set of fields can be assigned exactly when each of its descriptors can.
-/

namespace RecordStore

/-- The aliases and placeholders handed out so far. -/
structure Bindings where
  names : AliasTable
  values : ValueTable
deriving DecidableEq

namespace Bindings

/-- Nothing has been handed out yet. -/
def empty : Bindings := ⟨.empty, .empty⟩

/-- The alias of a field name. -/
def aliasOf (field : String) : StateM Bindings String := fun b =>
  let (a, names) := Naming.aliasOf b.names field
  (a, { b with names })

/-- A placeholder of its own for a value. -/
def placeholderFor (candidate : String) (v : Value) : StateM Bindings String := fun b =>
  let (p, values) := Naming.placeholderFor b.values candidate v
  (p, { b with values })

end Bindings

namespace Clause

/-- The place of a field among the placeholders: its name, inside a scope if there is one. -/
def within (scope : Option String) (field : String) : String :=
  match scope with
  | some s => s ++ "." ++ field
  | none => field

/-- The placeholder for the value of a path. -/
def bindValue (path : String) (v : Value) : StateM Bindings Operand := do
  let p ← Bindings.placeholderFor (":" ++ Naming.spelling path) v
  return .value p

/-- The placeholder for one of several values of a path. -/
def bindIndexed (path : String) (index : Nat) (v : Value) : StateM Bindings Operand := do
  let p ← Bindings.placeholderFor (":" ++ Naming.spelling path ++ toString index) v
  return .value p

/-- The alias path and the value placeholder of one entry of a map field. -/
def bindEntry (field path : String) (entry : String × Value) :
    StateM Bindings (Path × Operand) := do
  let outer ← Bindings.aliasOf field
  let inner ← Bindings.aliasOf entry.1
  let p ← bindValue (path ++ "." ++ entry.1) entry.2
  return ([outer, inner], p)

/-- The conditions that a descriptor stands for; they have to hold together. -/
def conditions (scope : Option String) (field : String) (d : Descriptor) :
    StateM Bindings (List Condition) := do
  let path := within scope field
  let a ← Bindings.aliasOf field
  let subject := Operand.path [a]
  match d with
  | .equals v | .increment v => do
    let p ← bindValue path v
    return [.compare .equal subject p]
  | .lessThan v => do
    let p ← bindValue path v
    return [.compare .lessThan subject p]
  | .lessOrEqual v => do
    let p ← bindValue path v
    return [.compare .lessOrEqual subject p]
  | .greaterOrEqual v => do
    let p ← bindValue path v
    return [.compare .greaterOrEqual subject p]
  | .beginsWith v => do
    let p ← bindValue path v
    return [.beginsWith subject p]
  | .between low high => do
    let p ← bindIndexed path 0 low
    let q ← bindIndexed path 1 high
    return [.between subject p q]
  | .either first second => do
    let p ← bindIndexed path 0 first
    let q ← bindIndexed path 1 second
    return [.or (.compare .equal subject p) (.compare .equal subject q)]
  | .nested entries =>
    entries.entries.mapM fun entry => do
      let (path, p) ← bindEntry field path entry
      return .compare .equal (.path path) p

/-- The actions that an assignment asks for. -/
def actions (field : String) (a : Assignment) : StateM Bindings (List SetAction) := do
  let label ← Bindings.aliasOf field
  match a with
  | .set v => do
    let p ← bindValue field v
    return [⟨[label], .operand p⟩]
  | .increment v => do
    let p ← bindValue field v
    return [⟨[label], .sum (.path [label]) p⟩]
  | .nested entries =>
    entries.entries.mapM fun entry => do
      let (path, p) ← bindEntry field field entry
      return ⟨path, .operand p⟩

/-- The clauses of a set of fields, in the order of their names. -/
def allConditions (scope : Option String) (fields : Fields) :
    StateM Bindings (List (List Condition)) :=
  fields.entries.mapM fun e => conditions scope e.1 e.2

/-- Conditions that have to hold together, as an expression. -/
def text (cs : List Condition) : String := " AND ".intercalate (cs.map Condition.text)

/-- The expression of a set of fields; absent if the set is absent or empty. -/
def conditionText (scope : Option String) (fields : Option Fields) :
    StateM Bindings (Option String) :=
  match fields with
  | none => return none
  | some fields =>
    if fields.isEmpty then return none
    else do
      let clauses ← allConditions scope fields
      return some (" AND ".intercalate (clauses.map text))

/-- The assignments of a list of fields, or the first field that cannot be assigned. -/
def assignmentsOf : List (String × Descriptor) → Except ArgumentFault (List (String × Assignment))
  | [] => .ok []
  | (field, d) :: rest =>
    match d.assignment? with
    | none => .error (.unassignable field d)
    | some a => (assignmentsOf rest).map ((field, a) :: ·)

/-- The assignments of a set of fields, or the first field that cannot be assigned. -/
def assignments (fields : Fields) : Except ArgumentFault (List (String × Assignment)) :=
  assignmentsOf fields.entries

/-- The actions of a list of assignments, in order. -/
def allActions (assignments : List (String × Assignment)) : StateM Bindings Update := do
  let parts ← assignments.mapM fun e => actions e.1 e.2
  return parts.flatten

/-- The update expression of a list of assignments; absent if there is none. -/
def updateText (assignments : List (String × Assignment)) : StateM Bindings (Option String) :=
  if assignments.isEmpty then return none
  else do
    let update ← allActions assignments
    return some (Update.text update)

/-- A set of fields can be assigned exactly when each of its descriptors can. -/
theorem assignments_isOk_iff (fields : Fields) :
    (assignments fields).isOk ↔ ∀ e ∈ fields.entries, e.2.assignment?.isSome := by
  have list (es : List (String × Descriptor)) :
      (assignmentsOf es).isOk ↔ ∀ e ∈ es, e.2.assignment?.isSome := by
    induction es with
    | nil => simp [assignmentsOf, Except.isOk, Except.toBool]
    | cons e es ih =>
      obtain ⟨field, d⟩ := e
      cases hd : d.assignment? with
      | none => simp [assignmentsOf, hd, Except.isOk, Except.toBool]
      | some a =>
        have step : (assignmentsOf ((field, d) :: es)).isOk = (assignmentsOf es).isOk := by
          cases hr : assignmentsOf es <;>
            simp [assignmentsOf, hd, hr, Except.isOk, Except.toBool, Except.map]
        rw [step, ih]
        simp [hd]
  exact list fields.entries

end Clause

end RecordStore
