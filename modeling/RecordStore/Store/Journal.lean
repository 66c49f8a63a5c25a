import RecordStore.Store.Memory

/-!
# Journals

A store over another store that writes down every request, and that can be told in advance how to
answer some of them.  A `Reply` that is prepared answers one request; when none is left, the store
below answers.
-/

namespace RecordStore

/-- A request, as it reached a store. -/
inductive Call where
  | put (table : String) (item : Item)
  | get (table : String) (key : Item)
  | update (request : UpdateRequest)
  | delete (table : String) (key : Item)
  | query (request : QueryRequest)
  | scan (request : ScanRequest)
  | batchGet (table : String) (keys : List Item)
deriving DecidableEq

/-- A prepared answer; each request takes from it the part that it asks for. -/
structure Answer where
  items : Option (List Item)
  cursor : Option Cursor
  item : Option Item
deriving DecidableEq

/-- What is prepared for a request. -/
inductive Reply where
  /-- The store below answers. -/
  | pass
  /-- The request fails with a report of the store. -/
  | fail (report : String)
  /-- The request succeeds and does not reach the store below. -/
  | answer (answer : Answer)
deriving DecidableEq

/-- The state of a store with what is prepared and what has been written down, in order. -/
structure Journal (σ : Type) where
  inner : σ
  replies : List Reply
  calls : List Call

namespace Journal

variable {σ α : Type}

/-- Answers a request: writes it down, and takes the next prepared reply or asks the store below. -/
def answer (call : Call) (below : Step σ α) (prepared : Answer → α) : Step (Journal σ) α := fun j =>
  let noted := { j with calls := j.calls ++ [call] }
  let pass (rest : List Reply) : Except Error α × Journal σ :=
    let (result, inner) := below.run j.inner
    (result, { noted with inner, replies := rest })
  match j.replies with
  | [] => pass []
  | .pass :: rest => pass rest
  | .fail report :: rest => (.error (.store report), { noted with replies := rest })
  | .answer a :: rest => (.ok (prepared a), { noted with replies := rest })

/-- The page of a prepared answer. -/
def page (a : Answer) : Page Item := ⟨a.items.getD [], a.cursor⟩

/-- The operations of a store, with a journal. -/
def store (inner : Store σ) : Store (Journal σ) where
  put table item := answer (.put table item) (inner.put table item) fun _ => ()
  get table key := answer (.get table key) (inner.get table key) Answer.item
  update r := answer (.update r) (inner.update r) fun _ => ()
  delete table key := answer (.delete table key) (inner.delete table key) fun _ => ()
  query r := answer (.query r) (inner.query r) page
  scan r := answer (.scan r) (inner.scan r) page
  batchGet table keys := answer (.batchGet table keys) (inner.batchGet table keys) Answer.items

/-- More fetches than the pages of any one read that comes to an end. -/
def fetchBound (j : Journal MemoryStore) : Nat := j.replies.length + j.inner.fetchBound

end Journal

end RecordStore
