import RecordStore.Proofs.Step
import RecordStore.Proofs.Store.KeyedMap

/-!
# A store is a keyed map

What a store in memory gives, in any run of its operations from the empty store on, is what a store
gives that keeps a finite map from keys to records for each table.

The step lemma is `MemoryStore.Models.perform`: an operation gives the same on both sides, and leaves
stores that are alike again.  Runs follow by induction.  What single operations change is told by
`MemoryStore.Keyed`, which holds in all states that a run can lead to.

* `KeyedStore` — tables as finite maps under their names;
* `MemoryStore.Models` — a store that holds what finite maps hold;
* `MemoryStore.Keyed` — each operation changes one key at most, and fails without a trace;
* `MemoryStore.run_of_keyed_map` — what every run gives, and where it leads.
-/

namespace RecordStore

/-- Tables as finite maps, under their names. -/
structure KeyedStore where
  tables : String → Option KeyedTable

/-- The update that a request spells. -/
def UpdateRequest.spelled (r : UpdateRequest) : Except Error Update :=
  match r.expressions.update with
  | none => .error (.argument .noUpdateExpression)
  | some text => (Update.ofText text).mapError .expression

/-- What a client asks of a store. -/
inductive Operation where
  | createTable (definition : TableDefinition)
  | put (table : String) (item : Item)
  | get (table : String) (key : Item)
  | update (request : UpdateRequest)
  | delete (table : String) (key : Item)
  | batchGet (table : String) (keys : List Item)
  | count (table : String)

/-- What an operation gives. -/
inductive Outcome where
  | done
  | record (found : Option Item)
  | records (found : Option (List Item))
  | count (n : Nat)
deriving DecidableEq

namespace Operation

/-- The table that an operation is about. -/
def table : Operation → String
  | createTable definition => definition.name
  | put table _ => table
  | get table _ => table
  | update r => r.table
  | delete table _ => table
  | batchGet table _ => table
  | count table => table

/-- Whether an operation writes under a key of its table. -/
def WritesTo (t : Table) (key : Item) : Operation → Prop
  | createTable _ => True
  | put _ item => t.SameKey key item
  | update r => t.SameKey key r.key
  | delete _ other => t.SameKey key other
  | get _ _ => False
  | batchGet _ _ => False
  | count _ => False

end Operation

namespace KeyedStore

/-- No tables. -/
def empty : KeyedStore := ⟨fun _ => none⟩

/-- The store with a table in the place of any earlier one with its name. -/
def insert (m : KeyedStore) (name : String) (t : KeyedTable) : KeyedStore :=
  ⟨fun other => if other = name then some t else m.tables other⟩

/-- The table with a name. -/
def table (m : KeyedStore) (name : String) : Except Error KeyedTable :=
  match m.tables name with
  | some t => .ok t
  | none => .error (.tableNotFound name)

/-- Changes one table. -/
def modifyTable (m : KeyedStore) (name : String) (f : KeyedTable → Except Error KeyedTable) :
    Except Error KeyedStore := do
  let t ← m.table name
  let t' ← f t
  return m.insert name t'

/-- Changes the record with a key as a request spells it, which is read before the table is looked
for. -/
def update (m : KeyedStore) (r : UpdateRequest) : Except Error KeyedStore := do
  let u ← r.spelled
  m.modifyTable r.table fun t => t.update r.key r.expressions u

/-- The record with a key. -/
def get (m : KeyedStore) (name : String) (key : Item) : Except Error (Option Item) := do
  let t ← m.table name
  t.get key

/-- The records that are under some keys. -/
def batchGet (m : KeyedStore) (name : String) (keys : List Item) : Except Error (List Item) := do
  let t ← m.table name
  t.batchGet keys

/-- The number of keys that have a record. -/
def count (m : KeyedStore) (name : String) : Except Error Nat := do
  let t ← m.table name
  return t.count

/-- Carries out an operation on finite maps. -/
def perform : Operation → Step KeyedStore Outcome
  | .createTable definition => fun m => (.ok .done, m.insert definition.name ⟨definition, ∅⟩)
  | .put table item => do
    Step.replace fun m => m.modifyTable table fun t => t.put item
    return .done
  | .get table key => do
    let found ← Step.inspect fun m => m.get table key
    return .record found
  | .update r => do
    Step.replace fun m => m.update r
    return .done
  | .delete table key => do
    Step.replace fun m => m.modifyTable table fun t => t.delete key
    return .done
  | .batchGet table keys => do
    let found ← Step.inspect fun m => (m.batchGet table keys).map some
    return .records found
  | .count table => do
    let n ← Step.inspect fun m => m.count table
    return .count n

end KeyedStore

namespace MemoryStore

/-- Carries out an operation on a store in memory. -/
def perform : Operation → Step MemoryStore Outcome
  | .createTable definition => fun s => (.ok .done, s.createTable definition)
  | .put table item => do
    store.put table item
    return .done
  | .get table key => do
    let found ← store.get table key
    return .record found
  | .update r => do
    store.update r
    return .done
  | .delete table key => do
    store.delete table key
    return .done
  | .batchGet table keys => do
    let found ← store.batchGet table keys
    return .records found
  | .count table => do
    let n ← Step.inspect fun s => s.count table
    return .count n

variable {s s' : MemoryStore} {m : KeyedStore} {name : String}

/-- A store holds what finite maps hold, table by table. -/
def Models (s : MemoryStore) (m : KeyedStore) : Prop :=
  ∀ name, Option.Rel Table.Models (s.tables.get? name) (m.tables name)

/-- What was done on both sides gave the same, and left stores that are alike. -/
def Alike {α : Type} (x : Except Error α × MemoryStore) (y : Except Error α × KeyedStore) : Prop :=
  x.1 = y.1 ∧ x.2.Models y.2

namespace Models

theorem empty : MemoryStore.empty.Models KeyedStore.empty := fun _ => .none

theorem table (h : s.Models m) (name : String) : Agree Table.Models (s.table name) (m.table name) := by
  rw [MemoryStore.table, KeyedStore.table]
  have hname := h name
  generalize s.tables.get? name = x at hname ⊢
  generalize m.tables name = y at hname ⊢
  cases hname with
  | some ht => exact .ok ht
  | none => exact .error _

/-- A table that takes the place of another one, on both sides. -/
theorem insert (h : s.Models m) (name : String) {t : Table} {u : KeyedTable} (ht : t.Models u) :
    Models { s with tables := s.tables.insert name t } (m.insert name u) := by
  intro other
  rw [OrderedDict.get?_insert]
  by_cases hother : other = name
  · simpa only [KeyedStore.insert, if_pos hother] using .some ht
  · simpa only [KeyedStore.insert, if_neg hother] using h other

/-- A change of one table that agrees with a change of its finite map. -/
theorem modifyTable (h : s.Models m) (name : String) {f : Table → Except Error Table}
    {g : KeyedTable → Except Error KeyedTable}
    (hfg : ∀ t u, t.Models u → Agree Table.Models (f t) (g u)) :
    Agree Models (s.modifyTable name f) (m.modifyTable name g) :=
  (h.table name).bind fun t u htu => (hfg t u htu).bind fun _ _ hmodels => .ok (h.insert name hmodels)

theorem update (h : s.Models m) (r : UpdateRequest) : Agree Models (s.update r) (m.update r) := by
  have hspelled : s.update r = r.spelled >>= fun u =>
      s.modifyTable r.table fun t => t.update r.key r.expressions u := by
    rw [MemoryStore.update, UpdateRequest.spelled]
    cases r.expressions.update <;> rfl
  rw [hspelled, KeyedStore.update]
  refine .bind_same fun u => h.modifyTable r.table fun t v htv => ?_
  exact htv.update r.key r.expressions u

/-- A change of the store that agrees with a change of the finite maps. -/
theorem replace (h : s.Models m) {f : MemoryStore → Except Error MemoryStore}
    {g : KeyedStore → Except Error KeyedStore} (hfg : Agree Models (f s) (g m)) :
    Alike ((Step.replace f).run s) ((Step.replace g).run m) := by
  rw [Step.run, Step.run, Step.replace, Step.replace]
  generalize f s = x at hfg ⊢
  generalize g m = y at hfg ⊢
  cases hfg with
  | ok hmodels => exact ⟨rfl, hmodels⟩
  | error fault => exact ⟨rfl, h⟩

/-- A look at the store that agrees with a look at the finite maps. -/
theorem inspect {α : Type} (h : s.Models m) {f : MemoryStore → Except Error α}
    {g : KeyedStore → Except Error α} (hfg : f s = g m) :
    Alike ((Step.inspect f).run s) ((Step.inspect g).run m) :=
  ⟨hfg, h⟩

end Models

/-- What is given in other words stays alike. -/
theorem Alike.bind_return {α β : Type} {x : Step MemoryStore α} {y : Step KeyedStore α}
    (h : Alike (x.run s) (y.run m)) (f : α → β) :
    Alike ((x >>= fun a => return f a).run s) ((y >>= fun a => return f a).run m) := by
  obtain ⟨hresult, hmodels⟩ := h
  rw [Step.run_bind, Step.run_bind]
  generalize x.run s = p at hresult hmodels ⊢
  generalize y.run m = q at hresult hmodels ⊢
  obtain ⟨result, s'⟩ := p
  obtain ⟨result', m'⟩ := q
  obtain rfl : result = result' := hresult
  cases result with
  | ok a => exact ⟨rfl, hmodels⟩
  | error fault => exact ⟨rfl, hmodels⟩

/-- **One operation.**  It gives the same on both sides and leaves stores that are alike. -/
theorem Models.perform (h : s.Models m) (op : Operation) :
    Alike ((MemoryStore.perform op).run s) ((KeyedStore.perform op).run m) := by
  cases op with
  | createTable definition => exact ⟨rfl, h.insert definition.name (.empty definition)⟩
  | put table item =>
      have hput := h.modifyTable table fun t u htu => htu.put item
      exact (h.replace hput).bind_return fun _ => Outcome.done
  | delete table key =>
      have hdelete := h.modifyTable table fun t u htu => htu.delete key
      exact (h.replace hdelete).bind_return fun _ => Outcome.done
  | update r => exact (h.replace (h.update r)).bind_return fun _ => Outcome.done
  | get table key =>
      have hget : s.get table key = m.get table key :=
        (h.table table).bind_eq fun t u htu => htu.get key
      exact (h.inspect hget).bind_return Outcome.record
  | batchGet table keys =>
      have hbatch : s.batchGet table keys = m.batchGet table keys :=
        (h.table table).bind_eq fun t u htu => htu.batchGet keys
      exact (h.inspect (congrArg (Except.map some) hbatch)).bind_return Outcome.records
  | count table =>
      have hcount : s.count table = m.count table :=
        (h.table table).bind_eq fun t u htu => congrArg Except.ok htu.count
      exact (h.inspect hcount).bind_return Outcome.count

/-- What an operation can have done to a store. -/
inductive Effect (s : MemoryStore) : Operation → MemoryStore → Prop where
  | none (op : Operation) : Effect s op s
  | createTable (definition : TableDefinition) :
      Effect s (.createTable definition) (s.createTable definition)
  | put {name : String} {item : Item} {s' : MemoryStore} (h : s.put name item = .ok s') :
      Effect s (.put name item) s'
  | update {r : UpdateRequest} {s' : MemoryStore} (h : s.update r = .ok s') : Effect s (.update r) s'
  | delete {name : String} {key : Item} {s' : MemoryStore} (h : s.delete name key = .ok s') :
      Effect s (.delete name key) s'

/-- **What an operation does**: one of five things, and nothing where it fails. -/
theorem effect_perform (op : Operation) (s : MemoryStore) :
    Effect s op ((perform op).run s).2 ∧
      ∀ fault, ((perform op).run s).1 = .error fault → ((perform op).run s).2 = s := by
  have change (f : MemoryStore → Except Error MemoryStore) (op : Operation)
      (hop : perform op = (Step.replace f >>= fun _ => return .done))
      (heffect : ∀ s', f s = .ok s' → Effect s op s') :
      Effect s op ((perform op).run s).2 ∧
        ∀ fault, ((perform op).run s).1 = .error fault → ((perform op).run s).2 = s := by
    obtain ⟨fault, _, hrun⟩ | ⟨s', hs', hrun⟩ :=
      Step.run_replace_bind f (fun _ => (return .done : Step MemoryStore Outcome)) s
    · rw [hop, hrun]
      exact ⟨.none op, fun _ _ => rfl⟩
    · rw [hop, hrun]
      exact ⟨heffect s' hs', fun fault hfault => by simp at hfault⟩
  have look {α : Type} (f : MemoryStore → Except Error α) (g : α → Outcome) (op : Operation)
      (hop : perform op = (Step.inspect f >>= fun a => return g a)) :
      Effect s op ((perform op).run s).2 ∧
        ∀ fault, ((perform op).run s).1 = .error fault → ((perform op).run s).2 = s := by
    have hlooks : (perform op).LooksOnly := by
      rw [hop]
      exact (Step.looksOnly_inspect f).bind fun _ => Step.looksOnly_pure _
    rw [hlooks s]
    exact ⟨.none op, fun _ _ => rfl⟩
  cases op with
  | createTable definition => exact ⟨.createTable definition, fun fault hfault => by cases hfault⟩
  | put table item => exact change (fun s => s.put table item) _ rfl fun _ h => .put h
  | update r => exact change (fun s => s.update r) _ rfl fun _ h => .update h
  | delete table key => exact change (fun s => s.delete table key) _ rfl fun _ h => .delete h
  | get table key => exact look (fun s => s.get table key) Outcome.record _ rfl
  | batchGet table keys => exact look (fun s => (s.batchGet table keys).map some) Outcome.records _ rfl
  | count table => exact look (fun s => s.count table) Outcome.count _ rfl

namespace Effect

variable {op : Operation} {t : Table} {key : Item}

theorem reachable (h : Effect s op s') (hs : s.Reachable) : s'.Reachable := by
  cases h with
  | none => exact hs
  | createTable definition => exact hs.createTable definition
  | put hput => exact hs.put hput
  | update hupdate => exact hs.update hupdate
  | delete hdelete => exact hs.delete hdelete

/-- An operation on one table leaves the others. -/
theorem table_of_ne (h : Effect s op s') (hname : name ≠ op.table) : s'.table name = s.table name := by
  cases h with
  | none => rfl
  | createTable definition =>
      have hname : ¬ name = definition.name := hname
      rw [table, table, MemoryStore.createTable, OrderedDict.get?_insert, if_neg hname]
  | put hput => exact (writesAt_put hput).2.1 name hname
  | update hupdate =>
      obtain ⟨_, hwrites⟩ := exists_writesAt_of_update hupdate
      exact hwrites.2.1 name hname
  | delete hdelete => exact (writesAt_delete hdelete).2.1 name hname

/-- An operation on one key leaves the others. -/
theorem get_of_not_writesTo (h : Effect s op s') (ht : s.table op.table = .ok t)
    (hkey : ¬ op.WritesTo t key) : s'.get op.table key = s.get op.table key := by
  cases h with
  | none => rfl
  | createTable definition => exact absurd trivial hkey
  | put hput => exact (writesAt_put hput).get_of_not_sameKey ht hkey
  | update hupdate =>
      obtain ⟨_, hwrites⟩ := exists_writesAt_of_update hupdate
      exact hwrites.get_of_not_sameKey ht hkey
  | delete hdelete => exact (writesAt_delete hdelete).get_of_not_sameKey ht hkey

end Effect

/-- An update leaves the attributes of the key, in the record that it changes as in all others. -/
theorem get_update {r : UpdateRequest} {t : Table} {key old : Item} (hs : s.Filed)
    (h : s.update r = .ok s') (ht : s.table r.table = .ok t)
    (hold : s.get r.table key = .ok (some old)) :
    ∃ new, s'.get r.table key = .ok (some new) ∧ t.SameKey new old := by
  obtain ⟨_, _, t', _, changed, _, _, ht', _, _, hsame, hwrites⟩ := writesAt_update h
  obtain rfl := Except.ok.inj (ht.symm.trans ht')
  have hkeyOld : t.SameKey old key :=
    (hs r.table t (table_eq_ok_iff.mp ht)).sameKey_of_get (get_eq ht key ▸ hold)
  by_cases hkey : t.SameKey key r.key
  · refine ⟨changed, hwrites.get_of_sameKey ht hkey, ?_⟩
    exact hsame.trans (hkeyOld.trans hkey).symm
  · refine ⟨old, ?_, .refl t old⟩
    rw [hwrites.get_of_not_sameKey ht hkey, hold]

/-- The records under some keys are those that the keys have, one after the other. -/
theorem batchGet_eq (s : MemoryStore) (name : String) (keys : List Item) :
    s.batchGet name keys = (do
      let _ ← s.table name
      let found ← keys.mapM (s.get name)
      return found.reduceOption) := by
  rw [batchGet]
  cases ht : s.table name with
  | error fault => rfl
  | ok t =>
      have hget : s.get name = t.get := funext fun key => get_eq ht key
      change t.batchGet keys = _
      rw [Table.batchGet_eq, hget]
      cases keys.mapM t.get <;> rfl

/-- **What holds of a store that is a keyed map.** -/
structure Keyed (s : MemoryStore) : Prop where
  /-- The text of a key stands for that key alone. -/
  keyText_eq_iff : ∀ {name t a b text}, s.table name = .ok t → t.keyText a = .ok text →
    (t.keyText b = .ok text ↔ t.SameKey b a)
  /-- Each record is filed under its own key. -/
  filed : s.Filed
  /-- An operation on one table leaves the others. -/
  other_table : ∀ {op name}, name ≠ op.table → ((perform op).run s).2.table name = s.table name
  /-- An operation on one key leaves the others. -/
  other_key : ∀ {op t key}, s.table op.table = .ok t → ¬ op.WritesTo t key →
    ((perform op).run s).2.get op.table key = s.get op.table key
  /-- An update leaves the attributes of the key. -/
  key_stays : ∀ {r s' t key old}, s.update r = .ok s' → s.table r.table = .ok t →
    s.get r.table key = .ok (some old) →
      ∃ new, s'.get r.table key = .ok (some new) ∧ t.SameKey new old
  /-- An operation that fails leaves every table as it was. -/
  failed : ∀ {op fault}, ((perform op).run s).1 = .error fault → ((perform op).run s).2 = s
  /-- The records under some keys are those that the keys have, one after the other. -/
  batchGet_eq : ∀ name keys, s.batchGet name keys = (do
    let _ ← s.table name
    let found ← keys.mapM (s.get name)
    return found.reduceOption)

theorem Reachable.keyed (h : s.Reachable) : s.Keyed where
  keyText_eq_iff _ ha := Table.keyText_eq_iff ha
  filed := h.filed_and_pageSize.1
  other_table hname := (effect_perform _ s).1.table_of_ne hname
  other_key ht hkey := (effect_perform _ s).1.get_of_not_writesTo ht hkey
  key_stays hupdate ht hold := get_update h.filed_and_pageSize.1 hupdate ht hold
  failed hfault := (effect_perform _ s).2 _ hfault
  batchGet_eq name keys := s.batchGet_eq name keys

/-- Runs from stores that are alike give the same. -/
theorem Models.run (h : s.Models m) (ops : List Operation) :
    (Step.runAll MemoryStore.perform ops s).1 = (Step.runAll KeyedStore.perform ops m).1 := by
  induction ops generalizing s m with
  | nil => rfl
  | cons op rest ih =>
      obtain ⟨hresult, hmodels⟩ := h.perform op
      rw [Step.runAll, Step.runAll]
      exact congrArg₂ List.cons hresult (ih hmodels)

/-- **A store in memory is a keyed map.**  Every run from the empty store gives what it gives on finite
maps from the keys to the records, and leads to a store in which the text of a key stands for that key
alone, each record is filed under its own key, and an operation changes one key of one table at most,
and nothing where it fails. -/
theorem run_of_keyed_map (ops : List Operation) :
    (Step.runAll perform ops .empty).1 = (Step.runAll KeyedStore.perform ops .empty).1 ∧
      (Step.runAll perform ops .empty).2.Keyed := by
  refine ⟨Models.empty.run ops, ?_⟩
  have hreachable : (Step.runAll perform ops .empty).2.Reachable :=
    Step.runAll_preserves (fun op s hs => (effect_perform op s).1.reachable hs) ops .empty
  exact hreachable.keyed

/-- Quotes in a key do not make it another key, and a put that fails changes nothing. -/
example :
    let definition : TableDefinition := ⟨"notes", ⟨"source", some "target"⟩, .empty⟩
    let quoted : Item := .ofList [("source", .string "a\",\"b"), ("target", .string "c")]
    let other : Item := .ofList [("source", .string "a"), ("target", .string "b\",\"c")]
    (Step.runAll perform [.createTable definition, .put "notes" quoted, .put "notes" .empty,
        .batchGet "notes" [other, quoted], .count "notes"] .empty).1 =
      [.ok .done, .ok .done, .error (.argument (.missingKeyAttribute "source" "notes")),
        .ok (.records (some [quoted])), .ok (.count 1)] := by
  decide +kernel

end MemoryStore

end RecordStore
