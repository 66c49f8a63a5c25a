import RecordStore.Entity
import RecordStore.Expressions

/-!
# Records marked as deleted

A soft deletion keeps a record and marks it with the time at which it was deleted.  Reads leave marked
records out by one more clause in their filter.
-/

namespace RecordStore

namespace Expressions

/-- The same request without the records that are marked as deleted. -/
def excludeDeleted (e : Expressions) : Expressions :=
  let (a, e) := e.addName Attribute.deletedAt
  e.andFilter (Condition.absent [a]).text

end Expressions

namespace Fields

/-- What marks a record as deleted at a time. -/
def deletionMark (now : Int) : Fields :=
  .ofList [(Attribute.deletedAt, .equals (.ofInt now)), (Attribute.updatedAt, .equals (.ofInt now))]

/-- Fields without those that only the library itself assigns. -/
def withoutReserved (fields : Fields) : Fields :=
  Attribute.reserved.foldl (fun f name => f.erase name) fields

end Fields

namespace Item

/-- A record without the attributes that only the library itself assigns. -/
def withoutReserved (item : Item) : Item :=
  Attribute.reserved.foldl (fun r name => r.erase name) item

/-- A record with two key attributes. -/
def ofKeys (source target : String) : Item :=
  .ofList [(Attribute.source, .string source), (Attribute.target, .string target)]

/-- A record whose two key attributes are the same. -/
def ofRootKey (key : String) : Item := ofKeys key key

end Item

end RecordStore
