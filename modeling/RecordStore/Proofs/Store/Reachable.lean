import RecordStore.Proofs.Dict
import RecordStore.Store.Memory

/-!
# States that a store can come to

A store in memory begins empty, and its tables change by its operations alone.  In every state that can
be reached this way each record is filed under the text of its own key.

The step lemmas say what each operation of a table keeps; `Reachable.filed_and_pageSize` follows by
induction along the operations.

* `Table.Filed` — each record is filed under the text of its own key;
* `Reachable.filed_and_pageSize` — what holds in every state that can be reached.
-/

namespace RecordStore

namespace Table

/-- Each record is filed under the text of its own key. -/
def Filed (t : Table) : Prop := ∀ k item, t.records.get? k = some item → t.keyText item = .ok k

/-- In an empty table everything is filed. -/
theorem filed_empty (definition : TableDefinition) : Filed ⟨definition, .empty⟩ :=
  fun k item h => by simp at h

/-- Filing a record under the text of its key keeps a table in order. -/
theorem Filed.insert {t : Table} (h : t.Filed) {key : String} {item : Item}
    (hkey : t.keyText item = .ok key) :
    Filed { t with records := t.records.insert key item } := by
  intro k record hrecord
  change (t.records.insert key item).get? k = some record at hrecord
  rw [OrderedDict.get?_insert] at hrecord
  split at hrecord
  · rename_i heq
    obtain rfl := Option.some.inj hrecord
    rw [heq]
    exact hkey
  · exact h k record hrecord

/-- A record is put under the text of its key. -/
theorem Filed.put {t t' : Table} (h : t.Filed) {item : Item} (hput : t.put item = .ok t') :
    t'.Filed := by
  obtain ⟨key, hkey, hput⟩ := Condition.bind_eq_ok hput
  obtain rfl := Except.ok.inj hput
  exact h.insert hkey

/-- Removing a record leaves the others where they are. -/
theorem Filed.delete {t t' : Table} (h : t.Filed) {key : Item} (hdelete : t.delete key = .ok t') :
    t'.Filed := by
  obtain ⟨text, _, hdelete⟩ := Condition.bind_eq_ok hdelete
  obtain rfl := Except.ok.inj hdelete
  intro k record hrecord
  change (t.records.erase text).get? k = some record at hrecord
  rw [OrderedDict.get?_erase] at hrecord
  split at hrecord
  · simp at hrecord
  · exact h k record hrecord

/-- A changed record keeps its key, and so its place. -/
theorem Filed.update {t t' : Table} (h : t.Filed) {key : Item} {e : Expressions} {u : Update}
    (hupdate : t.update key e u = .ok t') : t'.Filed := by
  obtain ⟨text, _, hupdate⟩ := Condition.bind_eq_ok hupdate
  obtain ⟨holds, _, hupdate⟩ := Condition.bind_eq_ok hupdate
  split at hupdate
  · obtain ⟨changed, _, hupdate⟩ := Condition.bind_eq_ok hupdate
    obtain ⟨newText, hnew, hupdate⟩ := Condition.bind_eq_ok hupdate
    split at hupdate
    · rename_i heq
      obtain rfl := Except.ok.inj hupdate
      exact h.insert (heq ▸ hnew)
    · simp at hupdate
  · simp at hupdate

end Table

namespace MemoryStore

/-- The states that the operations lead to from an empty store. -/
inductive Reachable : MemoryStore → Prop where
  | empty : Reachable .empty
  | withPageSize {s : MemoryStore} (n : Nat) (h : Reachable s) : Reachable (s.withPageSize n)
  | createTable {s : MemoryStore} (definition : TableDefinition) (h : Reachable s) :
      Reachable (s.createTable definition)
  | put {s s' : MemoryStore} {name : String} {item : Item} (h : Reachable s)
      (step : s.put name item = .ok s') : Reachable s'
  | update {s s' : MemoryStore} {r : UpdateRequest} (h : Reachable s)
      (step : s.update r = .ok s') : Reachable s'
  | delete {s s' : MemoryStore} {name : String} {key : Item} (h : Reachable s)
      (step : s.delete name key = .ok s') : Reachable s'

/-- A put leads to a state that can be reached, also where it fails. -/
theorem Reachable.run_put {s : MemoryStore} (h : s.Reachable) (name : String) (item : Item) :
    ((store.put name item).run s).2.Reachable := by
  cases hput : s.put name item with
  | error fault =>
      rw [run_store_put_error hput]
      exact h
  | ok s' =>
      have hrun : (store.put name item).run s = (.ok (), s') := by
        simp [store, Step.replace, Step.run, hput]
      rw [hrun]
      exact h.put hput

/-- In every table each record is filed under the text of its own key. -/
def Filed (s : MemoryStore) : Prop := ∀ name t, s.tables.get? name = some t → t.Filed

/-- A store finds the table that it has under a name. -/
theorem table_eq_ok_iff {s : MemoryStore} {name : String} {t : Table} :
    s.table name = .ok t ↔ s.tables.get? name = some t := by
  unfold table
  split <;> simp_all

/-- A change that keeps one table in order keeps all of them in order, and the bound on pages. -/
theorem Filed.modifyTable {s s' : MemoryStore} (h : s.Filed) {name : String}
    {f : Table → Except Error Table} (hf : ∀ t t', t.Filed → f t = .ok t' → t'.Filed)
    (hmodify : s.modifyTable name f = .ok s') : s'.Filed ∧ s'.pageSize = s.pageSize := by
  obtain ⟨t, ht, hmodify⟩ := Condition.bind_eq_ok hmodify
  obtain ⟨t', ht', hmodify⟩ := Condition.bind_eq_ok hmodify
  obtain rfl := Except.ok.inj hmodify
  refine ⟨fun other record hrecord => ?_, rfl⟩
  change (s.tables.insert name t').get? other = some record at hrecord
  rw [OrderedDict.get?_insert] at hrecord
  split at hrecord
  · obtain rfl := Option.some.inj hrecord
    exact hf t _ (h name t (table_eq_ok_iff.mp ht)) ht'
  · exact h other record hrecord

/-- A put keeps every table filed, and the page size. -/
theorem Filed.put {s s' : MemoryStore} (h : s.Filed) {name : String} {item : Item}
    (step : s.put name item = .ok s') : s'.Filed ∧ s'.pageSize = s.pageSize :=
  h.modifyTable (fun _ _ ht hput => ht.put hput) step

/-- So does a delete, -/
theorem Filed.delete {s s' : MemoryStore} (h : s.Filed) {name : String} {key : Item}
    (step : s.delete name key = .ok s') : s'.Filed ∧ s'.pageSize = s.pageSize :=
  h.modifyTable (fun _ _ ht hdelete => ht.delete hdelete) step

/-- and an update. -/
theorem Filed.update {s s' : MemoryStore} (h : s.Filed) {r : UpdateRequest}
    (step : s.update r = .ok s') : s'.Filed ∧ s'.pageSize = s.pageSize := by
  rw [MemoryStore.update] at step
  split at step
  · simp at step
  · obtain ⟨u, _, step⟩ := Condition.bind_eq_ok step
    exact h.modifyTable (fun _ _ ht hupdate => ht.update hupdate) step

/-- **Every state that can be reached.**  Each record is filed under the text of its own key, and no
page is bound to look at no record. -/
theorem Reachable.filed_and_pageSize {s : MemoryStore} (h : s.Reachable) :
    s.Filed ∧ s.pageSize ≠ some 0 := by
  induction h with
  | empty => exact ⟨fun name t ht => by simp [MemoryStore.empty] at ht, by simp [MemoryStore.empty]⟩
  | withPageSize n _ ih =>
      exact ⟨ih.1, by simp [MemoryStore.withPageSize]⟩
  | @createTable s definition _ ih =>
      refine ⟨fun name t ht => ?_, ih.2⟩
      change (s.tables.insert definition.name ⟨definition, .empty⟩).get? name = some t at ht
      rw [OrderedDict.get?_insert] at ht
      split at ht
      · obtain rfl := Option.some.inj ht
        exact Table.filed_empty definition
      · exact ih.1 name t ht
  | put _ step ih =>
      obtain ⟨hfiled, hpage⟩ := ih.1.put step
      exact ⟨hfiled, hpage ▸ ih.2⟩
  | update _ step ih =>
      obtain ⟨hfiled, hpage⟩ := ih.1.update step
      exact ⟨hfiled, hpage ▸ ih.2⟩
  | delete _ step ih =>
      obtain ⟨hfiled, hpage⟩ := ih.1.delete step
      exact ⟨hfiled, hpage ▸ ih.2⟩

/-- The tables of a store that can be reached are filed. -/
theorem Reachable.filed_table {s : MemoryStore} (h : s.Reachable) {name : String} {t : Table}
    (ht : s.table name = .ok t) : t.Filed :=
  h.filed_and_pageSize.1 name t (table_eq_ok_iff.mp ht)

end MemoryStore

end RecordStore
