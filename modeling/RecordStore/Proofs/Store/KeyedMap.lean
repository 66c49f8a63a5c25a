import Mathlib.Data.Finmap
import RecordStore.Proofs.Store.Writing

/-!
# A table is a keyed map

A table files records under texts.  Nothing of that can be told from what its operations give: they give
what those of a finite map from keys to records give, where a key is the tuple of the values that a
record has in the attributes of the key.

* `KeyedTable` — a table as a finite map, and the operations on it;
* `Table.Models` — a table that holds what a finite map holds;
* `Table.Models.put`, `Table.Models.delete`, `Table.Models.update` — the writes keep both alike;
* `Table.Models.get`, `Table.Models.batchGet`, `Table.Models.count` — the reads give the same.
-/

namespace RecordStore

/-- A table as a finite map from keys to records. -/
structure KeyedTable where
  definition : TableDefinition
  records : Finmap fun _ : List Value => Item

namespace KeyedTable

/-- The key of a record: its values in the attributes of the key, all of which have to be there. -/
def keyTuple (t : KeyedTable) (item : Item) : Except Error (List Value) :=
  Table.keyValues t.definition item t.definition.key.attributes

/-- Enters a record under its key. -/
def put (t : KeyedTable) (item : Item) : Except Error KeyedTable := do
  let k ← t.keyTuple item
  return { t with records := t.records.insert k item }

/-- The record under a key. -/
def get (t : KeyedTable) (key : Item) : Except Error (Option Item) := do
  let k ← t.keyTuple key
  return t.records.lookup k

/-- Takes the record under a key out of the map. -/
def delete (t : KeyedTable) (key : Item) : Except Error KeyedTable := do
  let k ← t.keyTuple key
  return { t with records := t.records.erase k }

/-- Revises the record under a key, or the attributes of the key alone where there is no record; the
key has to stay. -/
def update (t : KeyedTable) (key : Item) (e : Expressions) (u : Update) : Except Error KeyedTable := do
  let k ← t.keyTuple key
  let changed ← u.revise e ((t.records.lookup k).getD (key.project t.definition.key.attributes))
  let k' ← t.keyTuple changed
  if k' = k then return { t with records := t.records.insert k changed }
  else .error (.argument .keyChanged)

/-- The records that are under some keys, in the order of the keys. -/
def batchGet (t : KeyedTable) (keys : List Item) : Except Error (List Item) := do
  let found ← keys.mapM t.get
  return found.reduceOption

/-- The number of keys that have a record. -/
def count (t : KeyedTable) : Nat := t.records.keys.card

end KeyedTable

/-- Two computations fail alike, or both succeed with results in a relation. -/
inductive Agree {α β : Type} (R : α → β → Prop) : Except Error α → Except Error β → Prop where
  | ok {a : α} {b : β} (h : R a b) : Agree R (.ok a) (.ok b)
  | error (fault : Error) : Agree R (.error fault) (.error fault)

namespace Agree

variable {α β γ δ : Type} {R : α → β → Prop} {S : γ → δ → Prop}

/-- Sequences agree if their steps do. -/
theorem bind {x : Except Error α} {y : Except Error β} {f : α → Except Error γ}
    {g : β → Except Error δ} (h : Agree R x y) (hfg : ∀ a b, R a b → Agree S (f a) (g b)) :
    Agree S (x >>= f) (y >>= g) := by
  cases h with
  | ok hab => exact hfg _ _ hab
  | error fault => exact .error fault

/-- A computation that both sides begin with. -/
theorem bind_same {x : Except Error α} {f : α → Except Error γ} {g : α → Except Error δ}
    (hfg : ∀ a, Agree S (f a) (g a)) : Agree S (x >>= f) (x >>= g) := by
  cases x with
  | ok a => exact hfg a
  | error fault => exact .error fault

/-- What gives the same after computations that agree. -/
theorem bind_eq {x : Except Error α} {y : Except Error β} {f : α → Except Error γ}
    {g : β → Except Error γ} (h : Agree R x y) (hfg : ∀ a b, R a b → f a = g b) :
    x >>= f = y >>= g := by
  cases h with
  | ok hab => exact hfg _ _ hab
  | error fault => rfl

end Agree

namespace Table

/-- A table holds what a finite map holds: each record under the text of its key, and nothing else. -/
structure Models (t : Table) (m : KeyedTable) : Prop where
  definition : m.definition = t.definition
  lookup : ∀ k, m.records.lookup k = t.records.get? (Canonical.tuple k)
  exists_key : ∀ text item, t.records.get? text = some item → ∃ k, text = Canonical.tuple k

/-- The records under some keys are found one key after the other. -/
theorem batchGet_eq (t : Table) (keys : List Item) :
    t.batchGet keys = (keys.mapM t.get).map List.reduceOption := by
  induction keys with
  | nil => rfl
  | cons key rest ih =>
      rw [Table.batchGet, List.mapM_cons, ih]
      cases t.get key with
      | error fault => rfl
      | ok found =>
          cases rest.mapM t.get with
          | error fault => rfl
          | ok more => cases found <;> rfl

namespace Models

variable {t : Table} {m : KeyedTable} {item key : Item}

/-- A table and its map take the same values for a key. -/
theorem keyTuple (h : t.Models m) (item : Item) : m.keyTuple item = t.keyTuple item := by
  rw [KeyedTable.keyTuple, Table.keyTuple, h.definition]

/-- An empty table is an empty map. -/
theorem empty (definition : TableDefinition) : Models ⟨definition, .empty⟩ ⟨definition, ∅⟩ where
  definition := rfl
  lookup _ := rfl
  exists_key text item h := by simp at h

/-- Entering a record under a key keeps a table and a finite map alike. -/
theorem insert (h : t.Models m) (k : List Value) (item : Item) :
    Models { t with records := t.records.insert (Canonical.tuple k) item }
      { m with records := m.records.insert k item } where
  definition := h.definition
  lookup k' := by
    rw [OrderedDict.get?_insert]
    by_cases hk : k' = k
    · subst hk
      rw [if_pos rfl, Finmap.lookup_insert]
    · have htext : Canonical.tuple k' ≠ Canonical.tuple k := fun heq =>
        hk (Canonical.tuple_injective heq)
      rw [if_neg htext, Finmap.lookup_insert_of_ne _ hk, h.lookup]
  exists_key text record hrecord := by
    rw [OrderedDict.get?_insert] at hrecord
    split at hrecord
    · exact ⟨k, ‹_›⟩
    · exact h.exists_key text record hrecord

/-- Removing what is under a key keeps a table and a finite map alike. -/
theorem erase (h : t.Models m) (k : List Value) :
    Models { t with records := t.records.erase (Canonical.tuple k) }
      { m with records := m.records.erase k } where
  definition := h.definition
  lookup k' := by
    rw [OrderedDict.get?_erase]
    by_cases hk : k' = k
    · subst hk
      rw [if_pos rfl, Finmap.lookup_erase]
    · have htext : Canonical.tuple k' ≠ Canonical.tuple k := fun heq =>
        hk (Canonical.tuple_injective heq)
      rw [if_neg htext, Finmap.lookup_erase_ne hk, h.lookup]
  exists_key text record hrecord := by
    rw [OrderedDict.get?_erase] at hrecord
    split at hrecord
    · simp at hrecord
    · exact h.exists_key text record hrecord

/-- What is done with the text of a key is done with the key. -/
theorem bind_keyText {α β : Type} {R : α → β → Prop} (h : t.Models m) (item : Item)
    {f : String → Except Error α} {g : List Value → Except Error β}
    (hfg : ∀ k, Agree R (f (Canonical.tuple k)) (g k)) :
    Agree R (t.keyText item >>= f) (m.keyTuple item >>= g) := by
  rw [keyText_eq_map, h.keyTuple]
  cases t.keyTuple item with
  | error fault => exact .error fault
  | ok k => exact hfg k

/-- Putting a record files it under its key. -/
theorem put (h : t.Models m) (item : Item) : Agree Models (t.put item) (m.put item) :=
  h.bind_keyText item fun k => .ok (h.insert k item)

/-- Removing a record erases its key. -/
theorem delete (h : t.Models m) (key : Item) : Agree Models (t.delete key) (m.delete key) :=
  h.bind_keyText key fun k => .ok (h.erase k)

/-- The record under a key is what the map has there. -/
theorem get (h : t.Models m) (key : Item) : t.get key = m.get key := by
  rw [Table.get, KeyedTable.get, keyText_eq_map, h.keyTuple]
  cases t.keyTuple key with
  | error fault => rfl
  | ok k => exact congrArg Except.ok (h.lookup k).symm

/-- An update replaces what the map has under the key, or files a record that was not there. -/
theorem update (h : t.Models m) (key : Item) (e : Expressions) (u : Update) :
    Agree Models (t.update key e u) (m.update key e u) := by
  rw [update_eq]
  refine h.bind_keyText key fun k => ?_
  have hcurrent : (t.records.get? (Canonical.tuple k)).getD (t.keyOf key) =
      (m.records.lookup k).getD (key.project m.definition.key.attributes) := by
    rw [h.lookup, h.definition]
    rfl
  rw [hcurrent]
  refine .bind_same fun changed => h.bind_keyText changed fun k' => ?_
  by_cases hk : k' = k
  · rw [if_pos hk, if_pos (congrArg Canonical.tuple hk)]
    exact .ok (h.insert k changed)
  · rw [if_neg hk, if_neg fun heq => hk (Canonical.tuple_injective heq)]
    exact .error _

/-- Several records are looked up one by one. -/
theorem batchGet (h : t.Models m) (keys : List Item) : t.batchGet keys = m.batchGet keys := by
  have hget : t.get = m.get := funext fun key => h.get key
  rw [batchGet_eq, hget, KeyedTable.batchGet]
  cases keys.mapM m.get <;> rfl

/-- A table has as many records as its finite map. -/
theorem count (h : t.Models m) : t.records.size = m.count := by
  have hkeys : t.records.keys.toFinset = m.records.keys.image Canonical.tuple := by
    ext text
    rw [List.mem_toFinset, Finset.mem_image, OrderedDict.mem_keys_iff, Dict.contains,
      Option.isSome_iff_exists]
    constructor
    · rintro ⟨item, hitem⟩
      obtain ⟨k, rfl⟩ := h.exists_key text item hitem
      exact ⟨k, Finmap.mem_keys.mpr (Finmap.mem_iff.mpr ⟨item, by rw [h.lookup, hitem]⟩), rfl⟩
    · rintro ⟨k, hk, rfl⟩
      obtain ⟨item, hitem⟩ := Finmap.mem_iff.mp (Finmap.mem_keys.mp hk)
      exact ⟨item, by rw [← h.lookup, hitem]⟩
  calc t.records.size = t.records.keys.length := (List.length_map _).symm
    _ = t.records.keys.toFinset.card := (List.toFinset_card_of_nodup t.records.nodup_keys).symm
    _ = (m.records.keys.image Canonical.tuple).card := by rw [hkeys]
    _ = m.count := Finset.card_image_of_injective _ fun _ _ heq => Canonical.tuple_injective heq

end Models

end Table

end RecordStore
