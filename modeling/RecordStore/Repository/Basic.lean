import RecordStore.Config
import RecordStore.Repository.Plan

/-!
# Repositories

A repository gives access to the records of one table of a store.  It reads every record as an entity,
stamps the times of records itself, and by its settings marks records as deleted instead of removing
them.  The current time is an argument of the operations that need it.
-/

namespace RecordStore

/-- Access to the records of one table. -/
structure Repository (σ : Type) where
  store : Store σ
  config : Config

/-- A page of entities as an answer to a read, and where to go on. -/
structure Answers where
  items : List Entity
  lastKey : Option Cursor
deriving DecidableEq

namespace Repository

variable {σ : Type}

/-- A repository over a store, if its settings are sound. -/
def ofStore (store : Store σ) (config : Config) : Except Error (Repository σ) :=
  match config.fault? with
  | some fault => .error (.argument (.config fault))
  | none => .ok ⟨store, config⟩

/-- Reads a record as an entity. -/
def entity (r : Repository σ) (item : Item) : Except Error Entity :=
  Entity.ofItem r.config.delimiter item

/-- Reads the records of a page as entities. -/
def entities (r : Repository σ) (page : Page Item) : Except Error (Page Entity) :=
  page.convert (Entity.ofItems r.config.delimiter)

/-- A record as it is stored when it is created: with the time, and without attributes of the caller
that only the library itself assigns. -/
def newItem (item : Item) (now : Int) : Item :=
  (Item.withoutReserved item).insert Attribute.createdAt (.ofInt now)

/-- Stores a record, over any earlier one with its key. -/
def create (r : Repository σ) (now : Int) (item : Item) : Step σ Entity := do
  let entity ← Step.ofExcept (r.entity (newItem item now))
  r.store.put r.config.table (newItem item now)
  return entity

/-- The record with a key, marked as deleted or not. -/
def read (r : Repository σ) (key : Item) : Step σ (Option Entity) := do
  match ← r.store.get r.config.table key with
  | none => return none
  | some item => do
    let entity ← Step.ofExcept (r.entity item)
    return some entity

/-- Changes a record and reads it again. -/
def change (r : Repository σ) (now : Int) (c : Change) : Step σ (Option Entity) := do
  let request ← Step.ofExcept (c.request r.config.table now)
  r.store.update request
  r.read c.key

/-- Removes a record, or marks it as deleted and reads it again. -/
def remove (r : Repository σ) (now : Int) (removal : Removal) : Step σ (Option Entity) :=
  if removal.isSoft r.config.softDelete then do
    let expressions ← Step.ofExcept (Expressions.forUpdate (Fields.deletionMark now) none)
    r.store.update ⟨r.config.table, removal.key, expressions⟩
    r.read removal.key
  else do
    r.store.delete r.config.table removal.key
    return none

/-- The request that a query becomes in this repository. -/
def queryRequest (r : Repository σ) (q : Query) : QueryRequest :=
  q.request r.config.table r.config.filterDeleted

/-- The request that a scan becomes in this repository. -/
def scanRequest (r : Repository σ) (q : Scan) : ScanRequest :=
  q.request r.config.table r.config.filterDeleted

/-- Fetches a page of a query. -/
def fetchQuery (r : Repository σ) (q : Query) (cursor : Option Cursor) : Step σ (Page Item) :=
  r.store.query ((r.queryRequest q).resume cursor)

/-- Fetches a page of a scan. -/
def fetchScan (r : Repository σ) (q : Scan) (cursor : Option Cursor) : Step σ (Page Item) :=
  r.store.scan ((r.scanRequest q).resume cursor)

/-- The entities that a fetch of pages leads to. -/
def collect (r : Repository σ) (fetch : Option Cursor → Step σ (Page Item)) (budget : Nat)
    (start : Option Cursor) (recursive : Bool) : Step σ Answers := do
  let page ← Page.collect fetch budget start recursive
  let entities ← Step.ofExcept (r.entities page)
  return ⟨entities.items, entities.cursor⟩

/-- The entities that match a query: one page, or all pages if the query is recursive, within a number
of fetches. -/
def query (r : Repository σ) (budget : Nat) (q : Query) : Step σ Answers :=
  r.collect (r.fetchQuery q) budget q.start q.recursive

/-- The entities of a scan: one page, or all pages if the scan is recursive, within a number of
fetches. -/
def scan (r : Repository σ) (budget : Nat) (q : Scan) : Step σ Answers :=
  r.collect (r.fetchScan q) budget q.start q.recursive

/-- A page or failure with the records of the page read as entities. -/
def pageOf (r : Repository σ) (page : Except Error (Page Item)) : Except Error (Page Entity) :=
  page.bind r.entities

/-- The first pages of a query.  A page whose records cannot be read is a failure in its place, and the
stream goes on after it. -/
def queryPages (r : Repository σ) (count : Nat) (q : Query) (s : σ) :
    List (Except Error (Page Entity)) × σ :=
  let (pages, last) := Page.stream (r.fetchQuery q) count q.start s
  (pages.map r.pageOf, last)

/-- The first pages of a scan. -/
def scanPages (r : Repository σ) (count : Nat) (q : Scan) (s : σ) :
    List (Except Error (Page Entity)) × σ :=
  let (pages, last) := Page.stream (r.fetchScan q) count q.start s
  (pages.map r.pageOf, last)

/-- The records under some keys; a store that gives no answer is taken to have none of them.  Without
keys the store is not asked. -/
def batchGet (r : Repository σ) (keys : List Item) : Step σ (List Entity) :=
  if keys.isEmpty then return []
  else do
    match ← r.store.batchGet r.config.table keys with
    | none => return []
    | some items => Step.ofExcept (Entity.ofItems r.config.delimiter items)

end Repository

end RecordStore
