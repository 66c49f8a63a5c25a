import RecordStore.Expressions
import RecordStore.Paging

/-!
# Stores

The requests that a store answers, and what a store is: seven operations on a state.  A read that has
more to give says so by a cursor, and the same request goes on from there.
-/

namespace RecordStore

/-- Asks for the records that match a key condition, in the order of their keys. -/
structure QueryRequest where
  table : String
  index : Option String
  expressions : Expressions
  limit : Option Nat
  forward : Bool
  start : Option Cursor
deriving DecidableEq

/-- Asks for the records of a table or index. -/
structure ScanRequest where
  table : String
  index : Option String
  expressions : Expressions
  limit : Option Nat
  start : Option Cursor
deriving DecidableEq

/-- Asks to change the record under a key. -/
structure UpdateRequest where
  table : String
  key : Item
  expressions : Expressions
deriving DecidableEq

/-- The same query from a cursor on. -/
def QueryRequest.resume (r : QueryRequest) (start : Option Cursor) : QueryRequest := { r with start }

/-- The same scan from a cursor on. -/
def ScanRequest.resume (r : ScanRequest) (start : Option Cursor) : ScanRequest := { r with start }

/-- The operations of a store whose state is of type `σ`. -/
structure Store (σ : Type) where
  put : String → Item → Step σ Unit
  get : String → Item → Step σ (Option Item)
  update : UpdateRequest → Step σ Unit
  delete : String → Item → Step σ Unit
  query : QueryRequest → Step σ (Page Item)
  scan : ScanRequest → Step σ (Page Item)
  /-- The records under some keys; a store may also give no answer at all. -/
  batchGet : String → List Item → Step σ (Option (List Item))

end RecordStore
