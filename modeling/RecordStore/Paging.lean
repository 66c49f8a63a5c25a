import RecordStore.Step

/-!
# Paging

A long answer comes in pages.  Each page but the last carries a cursor, and fetching from that cursor
gives the next page.  `Page.stream` follows the cursors as far as is asked for and `Page.collect` puts
the pages together.  A fetch is a step on some state, and it can fail.
-/

namespace RecordStore

/-- Where to go on: the key of the last record that was looked at. -/
structure Cursor where
  key : Item
deriving DecidableEq

/-- A part of an answer, and where to go on unless it is the last part. -/
structure Page (α : Type) where
  items : List α
  cursor : Option Cursor
deriving DecidableEq

namespace Page

variable {σ α β : Type}

/-- Whether no page follows. -/
def isLast (p : Page α) : Bool := p.cursor.isNone

/-- Converts the items of a page together; the first one that cannot be converted fails all. -/
def convert (f : List α → Except Error (List β)) (p : Page α) : Except Error (Page β) :=
  (f p.items).map fun items => ⟨items, p.cursor⟩

/-- The first pages from a cursor on, up to a number of them.  The stream ends after a page without a
cursor and after a failure; no page is fetched before it is asked for. -/
def stream (fetch : Option Cursor → Step σ (Page α)) :
    Nat → Option Cursor → σ → List (Except Error (Page α)) × σ
  | 0, _, s => ([], s)
  | n + 1, start, s =>
    match (fetch start).run s with
    | (.error e, s') => ([.error e], s')
    | (.ok page, s') =>
      match page.cursor with
      | none => ([.ok page], s')
      | some next =>
        let (more, last) := stream fetch n (some next) s'
        (.ok page :: more, last)

/-- The items of all pages from a cursor on, in order, within a number of fetches. -/
def allItems (fetch : Option Cursor → Step σ (Page α)) (budget : Nat) :
    Nat → Option Cursor → Step σ (List α)
  | 0, _ => Step.fail (.endlessPages budget)
  | n + 1, start => do
    let page ← fetch start
    match page.cursor with
    | none => return page.items
    | some next => do
      let more ← allItems fetch budget n (some next)
      return page.items ++ more

/-- One page from a cursor on, or, recursively, all of them as one page without a cursor. -/
def collect (fetch : Option Cursor → Step σ (Page α)) (budget : Nat) (start : Option Cursor)
    (recursive : Bool) : Step σ (Page α) :=
  if recursive then do
    let items ← allItems fetch budget budget start
    return ⟨items, none⟩
  else fetch start

end Page

end RecordStore
