import RecordStore.Document
import RecordStore.Error

/-!
# Entities

A stored record has two key attributes, `source` and `target`.  Where they are equal the record is a
*root*, and its identifier is what follows the first delimiter of the key; where they differ it is an
*edge* from one key to another.  An `Entity` is a record whose keys have been read.

* `idOfKey_append` — the identifier of a key is what follows its first delimiter, all of it.
-/

namespace RecordStore

namespace Attribute

/-- The first key attribute. -/
def source : String := "source"

/-- The second key attribute. -/
def target : String := "target"

/-- The identifier that a root is given. -/
def id : String := "id"

/-- When a record was created, in milliseconds. -/
def createdAt : String := "createdAt"

/-- When a record was last changed, in milliseconds. -/
def updatedAt : String := "updatedAt"

/-- When a record was marked as deleted, in milliseconds. -/
def deletedAt : String := "deletedAt"

/-- The attributes that only the library itself assigns. -/
def reserved : List String := [createdAt, updatedAt, deletedAt]

end Attribute

/-- Whether a record stands for itself or joins two keys. -/
inductive Identity where
  | root (id : String)
  | edge
deriving DecidableEq

/-- A record whose keys and times have been read. -/
structure Entity where
  identity : Identity
  source : String
  target : String
  createdAt : Option Int
  updatedAt : Option Int
  deletedAt : Option Int
  item : Item
deriving DecidableEq

/-- What follows the first delimiter of a key; nothing, if there is none. -/
def idOfKey (key : String) (delimiter : Char) : String :=
  String.ofList ((key.toList.dropWhile fun c => c ≠ delimiter).drop 1)

/-- The identifier of a key is what follows its first delimiter, all of it. -/
theorem idOfKey_append {before : List Char} {delimiter : Char} (h : delimiter ∉ before)
    (after : List Char) :
    idOfKey (String.ofList (before ++ delimiter :: after)) delimiter = String.ofList after := by
  have drop : (before ++ delimiter :: after).dropWhile (fun c => c ≠ delimiter)
      = delimiter :: after := by
    induction before with
    | nil => simp
    | cons c cs ih =>
      simp only [List.mem_cons, not_or] at h
      have hc : c ≠ delimiter := fun e => h.1 e.symm
      simpa [hc] using ih h.2
  simp only [idOfKey, String.toList_ofList, drop, List.drop_one, List.tail_cons]

namespace Entity

/-- The text of a key attribute, which every record has to have. -/
def keyAttribute (item : Item) (name : String) : Except Error String :=
  match (item.get? name).bind Value.text? with
  | some s => .ok s
  | none => .error (.malformedEntity name)

/-- The time that an attribute holds, if it holds a number. -/
def time? (item : Item) (name : String) : Option Int := (item.get? name).bind Value.toInt64?

/-- An entity with a record's times. -/
def withTimes (identity : Identity) (source target : String) (item : Item) : Entity :=
  { identity, source, target, item
    createdAt := time? item Attribute.createdAt
    updatedAt := time? item Attribute.updatedAt
    deletedAt := time? item Attribute.deletedAt }

/-- Reads a record as an entity; a root gets its identifier as an attribute. -/
def ofItem (delimiter : Char) (item : Item) : Except Error Entity := do
  let source ← keyAttribute item Attribute.source
  let target ← keyAttribute item Attribute.target
  if source = target then
    let id := idOfKey source delimiter
    return withTimes (.root id) source target (item.insert Attribute.id (.string id))
  else
    return withTimes .edge source target item

/-- Reads records as entities, in order; the first one that is malformed fails all. -/
def ofItems (delimiter : Char) : List Item → Except Error (List Entity)
  | [] => .ok []
  | item :: rest => do
    let e ← ofItem delimiter item
    let more ← ofItems delimiter rest
    return e :: more

/-- The identifier of a root. -/
def id? (e : Entity) : Option String :=
  match e.identity with
  | .root id => some id
  | .edge => none

/-- Whether an entity is a root. -/
def isRoot (e : Entity) : Bool := e.id?.isSome

/-- Whether an entity is marked as deleted. -/
def isDeleted (e : Entity) : Bool := e.deletedAt.isSome

/-- An attribute of an entity. -/
def get? (e : Entity) (name : String) : Option Value := e.item.get? name

/-- Reads an entity as a value of an application's type. -/
def decode {α : Type} (read : Document.Reader α) (e : Entity) : Except Error α :=
  match read (Document.ofItem e.item) with
  | some a => .ok a
  | none => .error .undecodable

end Entity

end RecordStore
