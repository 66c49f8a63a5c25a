import RecordStore.Expression.ConditionHolding
import RecordStore.Expression.UpdateApplying
import RecordStore.Store.Request
import RecordStore.Value.Canonical

/-!
# Tables

A table holds records, each under the canonical text of its key attributes.  A read goes through them
in the order of a list of attributes: those of an index, if one is named, then those of the key.

How records compare need not be an order, since a key may hold values of any type.  What a sort gives then is
its own affair, and so a read takes its sort as it takes its request; the store sorts by insertion.

* `perm_sorted` — sorting loses and invents nothing;
* `Table.readBy` — a read with some sort;
* `Table.read_eq_inOrder` — the read of the store goes along its records in order.
-/

namespace RecordStore

/-- The attributes of a key: one, or one within another. -/
structure KeySchema where
  partition : String
  sort : Option String
deriving DecidableEq

/-- The attributes of a key, the more significant one first. -/
def KeySchema.attributes (k : KeySchema) : List String := k.partition :: k.sort.toList

/-- The name of a table, its key, and the keys of its indexes. -/
structure TableDefinition where
  name : String
  key : KeySchema
  indexes : OrderedDict KeySchema
deriving DecidableEq

/-- The attributes that a read of the table or of an index is ordered by, the most significant first. -/
def TableDefinition.ordering (t : TableDefinition) (index : Option String) :
    Except Error (List String) :=
  match index with
  | none => .ok (appendNew [] t.key.attributes)
  | some name =>
    match t.indexes.get? name with
    | some key => .ok (appendNew key.attributes t.key.attributes)
    | none => .error (.argument (.unknownIndex t.name name))
where
  /-- Appends those names that are not there yet. -/
  appendNew (names : List String) : List String → List String
    | [] => names
    | n :: rest => appendNew (if names.contains n then names else names ++ [n]) rest

namespace Item

/-- The part of a record that some attributes make up. -/
def project (item : Item) (names : List String) : Item :=
  .ofList (names.filterMap fun n => (item.get? n).map fun v => (n, v))

/-- Whether a record has all of some attributes. -/
def hasAll (item : Item) (names : List String) : Bool := names.all item.contains

/-- How two records compare in one attribute; a record without it comes first, and values that do not
compare make no difference. -/
def compareAt (name : String) (a b : Item) : Ordering :=
  match a.get? name, b.get? name with
  | some v, some w => (v.order w).getD .eq
  | none, some _ => .lt
  | some _, none => .gt
  | none, none => .eq

/-- How two records compare by a list of attributes, the first difference counting. -/
def compareOn (ordering : List String) (a b : Item) : Ordering :=
  match ordering with
  | [] => .eq
  | name :: rest =>
    match compareAt name a b with
    | .eq => compareOn rest a b
    | o => o

/-- Puts a record into a list that is in falling order, before what is not greater than it. -/
def place (ordering : List String) (item : Item) : List Item → List Item
  | [] => [item]
  | x :: rest =>
    if compareOn ordering item x = .lt then x :: place ordering item rest else item :: x :: rest

/-- Records in rising order; records that make no difference keep their places.

Up to twenty records are sorted like this however they compare, and any number of them where what is not
greater is transitive.  Of more records that compare otherwise a sort keeps all if it gives any, but their
order is open, and it may fail instead. -/
def sorted (ordering : List String) (items : List Item) : List Item :=
  (items.foldl (fun falling item => place ordering item falling) []).reverse

/-- Sorting by insertion, which never fails. -/
def insertionSort (ordering : List String) (items : List Item) : Except Error (List Item) :=
  .ok (sorted ordering items)

theorem perm_place (ordering : List String) (item : Item) (items : List Item) :
    (place ordering item items).Perm (item :: items) := by
  induction items with
  | nil => exact .refl _
  | cons x rest ih =>
    simp only [place]
    split
    · exact (ih.cons x).trans (.swap item x rest)
    · exact .refl _

/-- Sorting loses and invents nothing. -/
theorem perm_sorted (ordering : List String) (items : List Item) :
    (sorted ordering items).Perm items := by
  have fold (items falling : List Item) :
      (items.foldl (fun falling item => place ordering item falling) falling).Perm
        (falling ++ items) := by
    induction items generalizing falling with
    | nil => simp
    | cons item rest ih =>
      refine (ih (place ordering item falling)).trans ?_
      refine (((perm_place ordering item falling)).append_right rest).trans ?_
      exact List.perm_middle.symm
  exact (List.reverse_perm _).trans (by simpa using fold items [])

end Item

/-- A table: its definition, and its records under the texts of their keys. -/
structure Table where
  definition : TableDefinition
  records : OrderedDict Item
deriving DecidableEq

/-- What a read does: where it goes along, what it keeps and how far it goes. -/
structure ReadPlan where
  index : Option String
  context : Context
  keyCondition : Option Condition
  filter : Option Condition
  limit : Option Nat
  forward : Bool
  start : Option Cursor

/-- The members of a list that pass a test which can fail; the first failure counts. -/
def keepWhere {ε α : Type} (test : α → Except ε Bool) : List α → Except ε (List α)
  | [] => .ok []
  | x :: rest => do
    let keep ← test x
    let more ← keepWhere test rest
    return if keep then x :: more else more

/-- The lesser of two bounds that may be absent. -/
def tighter : Option Nat → Option Nat → Option Nat
  | some m, some n => some (Nat.min m n)
  | some m, none => some m
  | none, n => n

/-- The first members of a list, up to a bound if there is one. -/
def takeUpTo {α : Type} (bound : Option Nat) (xs : List α) : List α :=
  match bound with
  | some n => xs.take n
  | none => xs

namespace Table

/-- The values of the attributes that make up a key; each has to be there. -/
def keyValues (definition : TableDefinition) (item : Item) :
    List String → Except Error (List Value)
  | [] => .ok []
  | name :: rest =>
    match item.get? name with
    | none => .error (.argument (.missingKeyAttribute name definition.name))
    | some v => (keyValues definition item rest).map (v :: ·)

/-- The text under which a record is filed. -/
def keyText (t : Table) (item : Item) : Except Error String :=
  (keyValues t.definition item t.definition.key.attributes).map Canonical.tuple

/-- The key attributes of a record. -/
def keyOf (t : Table) (item : Item) : Item := Item.project item t.definition.key.attributes

/-- The records that have all attributes of an ordering, in that order or against it. -/
def inOrder (t : Table) (ordering : List String) (forward : Bool) : List Item :=
  let rising := Item.sorted ordering (t.records.values.filter fun r => Item.hasAll r ordering)
  if forward then rising else rising.reverse

/-- The same as some sort has it, which may fail. -/
def inOrderBy (sort : List String → List Item → Except Error (List Item)) (t : Table)
    (ordering : List String) (forward : Bool) : Except Error (List Item) := do
  let rising ← sort ordering (t.records.values.filter fun r => Item.hasAll r ordering)
  return if forward then rising else rising.reverse

/-- Tries a condition that may be absent. -/
def tests (context : Context) (condition : Option Condition) (item : Item) : Except Error Bool :=
  match condition with
  | none => .ok true
  | some c => (c.holds context item).mapError .expression

/-- Whether a record comes after a cursor in the direction of a read. -/
def isBeyond (ordering : List String) (forward : Bool) (start : Option Cursor) (item : Item) : Bool :=
  match start with
  | none => true
  | some c => Item.compareOn ordering item c.key = (if forward then .gt else .lt)

/-- One page of a read along its records as some sort has them.  The limit counts the records that are
looked at, before the filter; the page has a cursor when records are left and at least one has been looked
at. -/
def readBy (sort : List String → List Item → Except Error (List Item)) (t : Table)
    (pageSize : Option Nat) (plan : ReadPlan) : Except Error (Page Item) := do
  let ordering ← t.definition.ordering plan.index
  let along ← t.inOrderBy sort ordering plan.forward
  let matching ← keepWhere (tests plan.context plan.keyCondition) along
  let candidates := matching.filter (isBeyond ordering plan.forward plan.start)
  let looked := takeUpTo (tighter plan.limit pageSize) candidates
  let items ← keepWhere (tests plan.context plan.filter) looked
  let cursor :=
    if looked.length < candidates.length then
      looked.getLast?.map fun last => ⟨Item.project last ordering⟩
    else none
  return ⟨items, cursor⟩

/-- One page of a read of the store, which sorts by insertion. -/
def read (t : Table) (pageSize : Option Nat) (plan : ReadPlan) : Except Error (Page Item) :=
  t.readBy Item.insertionSort pageSize plan

/-- The read of the store goes along its records in order. -/
theorem read_eq_inOrder (t : Table) (pageSize : Option Nat) (plan : ReadPlan) :
    t.read pageSize plan = (do
      let ordering ← t.definition.ordering plan.index
      let matching ← keepWhere (tests plan.context plan.keyCondition)
        (t.inOrder ordering plan.forward)
      let candidates := matching.filter (isBeyond ordering plan.forward plan.start)
      let looked := takeUpTo (tighter plan.limit pageSize) candidates
      let items ← keepWhere (tests plan.context plan.filter) looked
      return ⟨items, if looked.length < candidates.length then
        looked.getLast?.map fun last => ⟨Item.project last ordering⟩
      else none⟩) :=
  rfl

/-- Files a record, over any earlier one with the same key. -/
def put (t : Table) (item : Item) : Except Error Table := do
  let key ← t.keyText item
  return { t with records := t.records.insert key item }

/-- The record with a key. -/
def get (t : Table) (key : Item) : Except Error (Option Item) :=
  (t.keyText key).map fun text => t.records.get? text

/-- Removes the record with a key, if there is one. -/
def delete (t : Table) (key : Item) : Except Error Table := do
  let text ← t.keyText key
  return { t with records := t.records.erase text }

/-- Changes the record with a key.  Where there is none, one with the key alone is changed.  The guard
has to hold of the record before, and the record after has to have the same key. -/
def update (t : Table) (key : Item) (expressions : Expressions) (update : Update) :
    Except Error Table := do
  let text ← t.keyText key
  let current := (t.records.get? text).getD (t.keyOf key)
  let holds ← (Condition.optionalHolds expressions.context current expressions.condition).mapError
    .expression
  if holds then
    let changed ← (update.apply expressions.context current).mapError .expression
    let newText ← t.keyText changed
    if newText = text then return { t with records := t.records.insert text changed }
    else .error (.argument .keyChanged)
  else .error (.conditionFailed (expressions.condition.getD ""))

/-- The records under some keys, in the order of the keys; keys without a record are passed over. -/
def batchGet (t : Table) : List Item → Except Error (List Item)
  | [] => .ok []
  | key :: rest => do
    let found ← t.get key
    let more ← t.batchGet rest
    return found.toList ++ more

end Table

end RecordStore
