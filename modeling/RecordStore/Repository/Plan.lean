import RecordStore.SoftDelete
import RecordStore.Store.Request

/-!
# Plans

What a caller asks of a repository, before it is compiled for a store: a query, a scan, a change or a
removal.  Where a plan does not say how to treat records marked as deleted, the repository's settings
do.
-/

namespace RecordStore

/-- Records to be read by their key. -/
structure Query where
  key : Fields
  filter : Option Fields
  index : Option String
  limit : Option Nat
  forward : Bool
  start : Option Cursor
  /-- Whether all pages are wanted. -/
  recursive : Bool
  /-- Whether to leave out records marked as deleted. -/
  filterDeleted : Option Bool
deriving DecidableEq

namespace Query

/-- The query for a key, and nothing more. -/
def ofKey (key : Fields) : Query := ⟨key, none, none, none, true, none, false, none⟩

/-- The expressions of a query. -/
def expressions (q : Query) (filterDeleted : Bool) : Expressions :=
  let e := Expressions.forQuery q.key q.filter
  if q.filterDeleted.getD filterDeleted then e.excludeDeleted else e

/-- The request that a query becomes. -/
def request (q : Query) (table : String) (filterDeleted : Bool) : QueryRequest :=
  ⟨table, q.index, q.expressions filterDeleted, q.limit, q.forward, q.start⟩

end Query

/-- Records to be read from a whole table or index. -/
structure Scan where
  filter : Option Fields
  index : Option String
  limit : Option Nat
  start : Option Cursor
  /-- Whether all pages are wanted. -/
  recursive : Bool
  /-- Whether to leave out records marked as deleted. -/
  filterDeleted : Option Bool
deriving DecidableEq

namespace Scan

/-- The scan of a whole table, and nothing more. -/
def all : Scan := ⟨none, none, none, none, false, none⟩

/-- The expressions of a scan. -/
def expressions (q : Scan) (filterDeleted : Bool) : Expressions :=
  let e := Expressions.forScan q.filter
  if q.filterDeleted.getD filterDeleted then e.excludeDeleted else e

/-- The request that a scan becomes. -/
def request (q : Scan) (table : String) (filterDeleted : Bool) : ScanRequest :=
  ⟨table, q.index, q.expressions filterDeleted, q.limit, q.start⟩

end Scan

/-- A record to be changed, how, and under what guard. -/
structure Change where
  key : Item
  fields : Fields
  guard : Option Fields
deriving DecidableEq

namespace Change

/-- No change yet of the record with a key. -/
def ofKey (key : Item) : Change := ⟨key, .empty, none⟩

/-- Also sets a field. -/
def set (c : Change) (name : String) (v : Value) : Change :=
  { c with fields := c.fields.insert name (.equals v) }

/-- Also lets a field grow. -/
def increment (c : Change) (name : String) (delta : Value) : Change :=
  { c with fields := c.fields.insert name (.increment delta) }

/-- Also does what some fields say. -/
def merge (c : Change) (fields : Fields) : Change := { c with fields := c.fields.union fields }

/-- Takes place only if some fields hold before. -/
def guarded (c : Change) (guard : Fields) : Change := { c with guard := some guard }

/-- Whether no field is changed. -/
def isEmpty (c : Change) : Bool := c.fields.isEmpty

/-- The fields of a change at a time: the library's own attributes are left alone, but for the time. -/
def stamped (c : Change) (now : Int) : Fields :=
  c.fields.withoutReserved.insert Attribute.updatedAt (.equals (.ofInt now))

/-- The expressions of a change at a time. -/
def expressions (c : Change) (now : Int) : Except Error Expressions :=
  Expressions.forUpdate (c.stamped now) c.guard

/-- The request that a change becomes. -/
def request (c : Change) (table : String) (now : Int) : Except Error UpdateRequest :=
  (c.expressions now).map fun e => ⟨table, c.key, e⟩

end Change

/-- A record to be removed, for good or by a mark. -/
structure Removal where
  key : Item
  /-- Whether to keep the record and mark it. -/
  soft : Option Bool
deriving DecidableEq

/-- Whether a removal keeps the record and marks it. -/
def Removal.isSoft (r : Removal) (softDelete : Bool) : Bool := r.soft.getD softDelete

end RecordStore
