import RecordStore.Store.Table

/-!
# The store in memory

Tables under their names, and a bound on the records that one page looks at.  Every operation is a
function of the state; one that fails leaves the state as it was.

* `run_store_put_error`, `run_store_update_error` — a failed change leaves every table alone.
-/

namespace RecordStore

/-- Tables under their names. -/
structure MemoryStore where
  tables : OrderedDict Table
  /-- How many records one page looks at, at most. -/
  pageSize : Option Nat
deriving DecidableEq

namespace MemoryStore

/-- A store without tables. -/
def empty : MemoryStore := ⟨.empty, none⟩

/-- The store with a bound on its pages; a page looks at one record at least. -/
def withPageSize (s : MemoryStore) (n : Nat) : MemoryStore := { s with pageSize := some (Nat.max n 1) }

/-- Adds an empty table, over any earlier one with its name. -/
def createTable (s : MemoryStore) (definition : TableDefinition) : MemoryStore :=
  { s with tables := s.tables.insert definition.name ⟨definition, .empty⟩ }

/-- The table with a name. -/
def table (s : MemoryStore) (name : String) : Except Error Table :=
  match s.tables.get? name with
  | some t => .ok t
  | none => .error (.tableNotFound name)

/-- The number of records in a table. -/
def count (s : MemoryStore) (name : String) : Except Error Nat :=
  (s.table name).map fun t => t.records.size

/-- Changes one table. -/
def modifyTable (s : MemoryStore) (name : String) (f : Table → Except Error Table) :
    Except Error MemoryStore := do
  let t ← s.table name
  let t' ← f t
  return { s with tables := s.tables.insert name t' }

/-- Files a record. -/
def put (s : MemoryStore) (name : String) (item : Item) : Except Error MemoryStore :=
  s.modifyTable name fun t => t.put item

/-- The record with a key. -/
def get (s : MemoryStore) (name : String) (key : Item) : Except Error (Option Item) := do
  let t ← s.table name
  t.get key

/-- Removes the record with a key, if there is one. -/
def delete (s : MemoryStore) (name : String) (key : Item) : Except Error MemoryStore :=
  s.modifyTable name fun t => t.delete key

/-- Changes the record with a key; the update expression is read before the table is looked for. -/
def update (s : MemoryStore) (r : UpdateRequest) : Except Error MemoryStore :=
  match r.expressions.update with
  | none => .error (.argument .noUpdateExpression)
  | some text => do
    let update ← (Update.ofText text).mapError .expression
    s.modifyTable r.table fun t => t.update r.key r.expressions update

/-- Reads the condition that a text spells, if there is a text. -/
def conditionOf? (text : Option String) : Except Error (Option Condition) :=
  match text with
  | none => .ok none
  | some text => ((Condition.ofText text).mapError .expression).map some

/-- One page of a query with some sort; its expressions are read before the table is looked for. -/
def queryBy (sort : List String → List Item → Except Error (List Item)) (s : MemoryStore)
    (r : QueryRequest) : Except Error (Page Item) :=
  match r.expressions.keyCondition with
  | none => .error (.argument .noKeyCondition)
  | some text => do
    let keyCondition ← conditionOf? (some text)
    let filter ← conditionOf? r.expressions.filter
    let t ← s.table r.table
    t.readBy sort s.pageSize
      ⟨r.index, r.expressions.context, keyCondition, filter, r.limit, r.forward, r.start⟩

/-- One page of a query. -/
def query (s : MemoryStore) (r : QueryRequest) : Except Error (Page Item) :=
  s.queryBy Item.insertionSort r

/-- One page of a scan with some sort. -/
def scanBy (sort : List String → List Item → Except Error (List Item)) (s : MemoryStore)
    (r : ScanRequest) : Except Error (Page Item) := do
  let filter ← conditionOf? r.expressions.filter
  let t ← s.table r.table
  t.readBy sort s.pageSize ⟨r.index, r.expressions.context, none, filter, r.limit, true, r.start⟩

/-- One page of a scan. -/
def scan (s : MemoryStore) (r : ScanRequest) : Except Error (Page Item) :=
  s.scanBy Item.insertionSort r

/-- The records under some keys. -/
def batchGet (s : MemoryStore) (name : String) (keys : List Item) : Except Error (List Item) := do
  let t ← s.table name
  t.batchGet keys

/-- More fetches than the pages of any one read that comes to an end: each of its pages but the last
ends at another record. -/
def fetchBound (s : MemoryStore) : Nat :=
  s.tables.values.foldl (fun n t => n + t.records.size) 2

/-- The operations of the store in memory. -/
def store : Store MemoryStore where
  put name item := Step.replace fun s => s.put name item
  get name key := Step.inspect fun s => s.get name key
  update r := Step.replace fun s => s.update r
  delete name key := Step.replace fun s => s.delete name key
  query r := Step.inspect fun s => s.query r
  scan r := Step.inspect fun s => s.scan r
  batchGet name keys := Step.inspect fun s => (s.batchGet name keys).map some

/-- A put that fails leaves every table alone. -/
theorem run_store_put_error {s : MemoryStore} {name : String} {item : Item} {e : Error}
    (h : s.put name item = .error e) : (store.put name item).run s = (.error e, s) := by
  simp [store, Step.replace, Step.run, h]

/-- An update that succeeds leads to the store that it gives. -/
theorem run_store_update_ok {s s' : MemoryStore} {r : UpdateRequest} (h : s.update r = .ok s') :
    (store.update r).run s = (.ok (), s') := by
  simp [store, Step.replace, Step.run, h]

/-- An update that fails leaves every table alone. -/
theorem run_store_update_error {s : MemoryStore} {r : UpdateRequest} {e : Error}
    (h : s.update r = .error e) : (store.update r).run s = (.error e, s) := by
  simp [store, Step.replace, Step.run, h]

end MemoryStore

end RecordStore
