import RecordStore.Proofs.Repository.Failures

/-!
# Records that can be read back

A table keyed by source and target in which all keys are texts holds entities only, and then no read of
it can come upon a malformed record.  A creation keeps this up whatever it is given.  A change or a mark
keeps it up if it asks for a key of two texts; with any other key it may store a record that no read
gets past.

The step lemma is `Repository.Explained.after`: after an action each record is an entity or has the
key of a change or mark so far.  Runs follow by induction.

* `Readable` — a result with a property, or a failure for another reason than a malformed record;
* `Repository.readable_reads` — reads of a table that holds entities only;
* `Repository.stored_of_run` — the records after any run;
* `Repository.not_stored_of_run` — one of them need not be an entity.
-/

namespace RecordStore

/-- A result has a property, and a failure is not that a record is malformed. -/
def Readable {α : Type} (x : Except Error α) (P : α → Prop) : Prop :=
  match x with
  | .ok a => P a
  | .error fault => fault.kind ≠ .malformedEntity

namespace Readable

variable {α β : Type} {P Q : α → Prop} {R : β → Prop}

/-- What is readable with one property is readable with a weaker one. -/
theorem imp {x : Except Error α} (h : Readable x P) (hPQ : ∀ a, P a → Q a) : Readable x Q := by
  cases x with
  | ok a => exact hPQ a h
  | error fault => exact h

/-- A sequence is readable if its steps are, each with what the one before it gave. -/
theorem bind {x : Except Error α} {f : α → Except Error β} (hx : Readable x P)
    (hf : ∀ a, P a → Readable (f a) R) : Readable (x >>= f) R := by
  cases x with
  | ok a => exact hf a hx
  | error fault => exact hx

/-- A mapped answer is readable if the answer is. -/
theorem map {x : Except Error α} {f : α → β} (hx : Readable x P) (hf : ∀ a, P a → R (f a)) :
    Readable (x.map f) R := by
  cases x with
  | ok a => exact hf a hx
  | error fault => exact hx

/-- A failure of an expression is not that a record is malformed. -/
theorem mapError (x : Except ExpressionFault α) :
    Readable (x.mapError .expression) fun a => x = .ok a := by
  cases x with
  | ok a => rfl
  | error fault => exact fun h => by cases h

/-- The same of each member of a list. -/
theorem keepWhere {test : α → Except Error Bool} (htest : ∀ x, Readable (test x) fun _ => True)
    (xs : List α) : Readable (RecordStore.keepWhere test xs) fun ys => ∀ y ∈ ys, y ∈ xs := by
  induction xs with
  | nil =>
      intro y hy
      simp at hy
  | cons x rest ih =>
      refine (htest x).bind fun keep _ => ih.bind fun more hmore => ?_
      intro y hy
      cases keep with
      | false => exact List.mem_cons_of_mem x (hmore y hy)
      | true =>
          rcases List.mem_cons.mp hy with rfl | hy
          · exact List.mem_cons_self
          · exact List.mem_cons_of_mem x (hmore y hy)

end Readable

namespace Table

variable {t : Table}

/-- A table holds a record. -/
def Holds (t : Table) (record : Item) : Prop := ∃ text, t.records.get? text = some record

/-- The records that a read goes along are records of the table. -/
theorem holds_of_mem_inOrder {ordering : List String} {forward : Bool} {record : Item}
    (h : record ∈ t.inOrder ordering forward) : t.Holds record := by
  let kept := t.records.values.filter fun r => Item.hasAll r ordering
  have hsorted : record ∈ Item.sorted ordering kept := by
    cases forward with
    | true => exact h
    | false => exact List.mem_reverse.mp h
  have hvalues : record ∈ t.records.values :=
    (List.mem_filter.mp ((Item.perm_sorted ordering kept).mem_iff.mp hsorted)).1
  obtain ⟨⟨text, r⟩, hentry, rfl⟩ := List.mem_map.mp hvalues
  exact ⟨text, t.records.mem_entries_iff.mp hentry⟩

/-- Trying a condition may fail, but never for a malformed record. -/
theorem readable_tests (context : Context) (condition : Option Condition) (item : Item) :
    Readable (tests context condition item) fun _ => True := by
  cases condition with
  | none => trivial
  | some c => exact (Readable.mapError _).imp fun _ _ => trivial

/-- The records of a page are records of the table. -/
theorem readable_read (t : Table) (pageSize : Option Nat) (plan : ReadPlan) :
    Readable (t.read pageSize plan) fun page => ∀ item ∈ page.items, t.Holds item := by
  have hordering : Readable (t.definition.ordering plan.index) fun _ => True := by
    unfold TableDefinition.ordering
    split
    · trivial
    · split
      · trivial
      · exact fun h => by cases h
  rw [read_eq_inOrder]
  refine hordering.bind fun ordering _ => ?_
  refine (Readable.keepWhere (readable_tests _ _) _).bind fun matching hmatching => ?_
  refine (Readable.keepWhere (readable_tests _ _) _).bind fun items hitems => ?_
  intro item hitem
  have hlooked := hitems item hitem
  have hcandidate : item ∈ matching.filter (isBeyond ordering plan.forward plan.start) := by
    unfold takeUpTo at hlooked
    split at hlooked
    · exact List.mem_of_mem_take hlooked
    · exact hlooked
  exact holds_of_mem_inOrder (hmatching item (List.mem_filter.mp hcandidate).1)

/-- A key that lacks an attribute is a wrong argument and no malformed record. -/
theorem readable_keyValues (definition : TableDefinition) (item : Item) (names : List String) :
    Readable (keyValues definition item names) fun _ => True := by
  induction names with
  | nil => trivial
  | cons name rest ih =>
      unfold keyValues
      split
      · exact fun h => by cases h
      · exact ih.map fun _ _ => trivial

/-- What is found under a key is a record of the table. -/
theorem readable_get (t : Table) (key : Item) :
    Readable (t.get key) fun found => ∀ item, found = some item → t.Holds item := by
  have htext : Readable (t.keyText key) fun _ => True :=
    (readable_keyValues _ _ _).map fun _ _ => trivial
  exact htext.map fun text _ item hitem => ⟨text, hitem⟩

/-- The records found under some keys are records of the table. -/
theorem readable_batchGet (t : Table) (keys : List Item) :
    Readable (t.batchGet keys) fun items => ∀ item ∈ items, t.Holds item := by
  induction keys with
  | nil =>
      intro item hitem
      simp at hitem
  | cons key rest ih =>
      refine (t.readable_get key).bind fun found hfound => ih.bind fun more hmore => ?_
      intro item hitem
      rcases List.mem_append.mp hitem with hitem | hitem
      · exact hfound item (Option.mem_toList.mp hitem)
      · exact hmore item hitem

end Table

/-- A record has two texts as its keys. -/
def Item.IsKeyed (item : Item) : Prop := ∃ source target, item.HasKeys source target

/-- The entities are the records with two texts as their keys. -/
theorem Entity.ofItem_isOk_iff {delimiter : Char} {item : Item} :
    (∃ entity, ofItem delimiter item = .ok entity) ↔ item.IsKeyed := by
  refine ⟨?_, fun ⟨_, _, hkeys⟩ => hkeys.exists_entity delimiter⟩
  rintro ⟨entity, h⟩
  obtain ⟨source, hsource, h⟩ := Condition.bind_eq_ok h
  obtain ⟨target, htarget, _⟩ := Condition.bind_eq_ok h
  exact ⟨source, target, keyAttribute_eq_ok_iff.mp hsource, keyAttribute_eq_ok_iff.mp htarget⟩

/-- A keyed record can be read as an entity. -/
theorem Entity.readable_ofItem {item : Item} (h : item.IsKeyed) (delimiter : Char) :
    Readable (ofItem delimiter item) fun _ => True := by
  obtain ⟨entity, hentity⟩ := Entity.ofItem_isOk_iff.mpr h
  rw [hentity]
  trivial

/-- So are several of them, one after the other. -/
theorem Entity.readable_ofItems {items : List Item} (h : ∀ item ∈ items, item.IsKeyed)
    (delimiter : Char) : Readable (ofItems delimiter items) fun _ => True := by
  induction items with
  | nil => trivial
  | cons item rest ih =>
      refine (readable_ofItem (h item List.mem_cons_self) delimiter).bind fun _ _ => ?_
      exact (ih fun r hr => h r (List.mem_cons_of_mem item hr)).bind fun _ _ => trivial

namespace MemoryStore

variable {s : MemoryStore} {name : String}

/-- Each record of a table has two texts as its keys. -/
def HoldsEntities (s : MemoryStore) (name : String) : Prop :=
  ∀ t, s.table name = .ok t → ∀ record, t.Holds record → record.IsKeyed

/-- Looking for a table never meets a malformed record. -/
theorem readable_table (s : MemoryStore) (name : String) :
    Readable (s.table name) fun t => s.table name = .ok t := by
  cases h : s.table name with
  | ok t => rfl
  | error fault =>
      unfold table at h
      split at h
      · simp at h
      · obtain rfl := Except.error.inj h
        exact fun h => by cases h

/-- Reading a condition never meets a malformed record. -/
theorem readable_conditionOf? (text : Option String) :
    Readable (conditionOf? text) fun _ => True := by
  cases text with
  | none => trivial
  | some text => exact (Readable.mapError _).map fun _ _ => trivial

variable (h : s.HoldsEntities name)

include h

/-- A record found in a store of entities is keyed. -/
theorem readable_get (key : Item) :
    Readable (s.get name key) fun found => ∀ item, found = some item → item.IsKeyed := by
  refine (s.readable_table name).bind fun t ht => (t.readable_get key).imp fun found hfound => ?_
  exact fun item hitem => h t ht item (hfound item hitem)

/-- So are the records of a page of a query. -/
theorem readable_query {r : QueryRequest} (hname : r.table = name) :
    Readable (s.query r) fun page => ∀ item ∈ page.items, item.IsKeyed := by
  unfold query queryBy
  split
  · exact fun h => by cases h
  · refine (readable_conditionOf? _).bind fun _ _ => (readable_conditionOf? _).bind fun _ _ => ?_
    refine (s.readable_table _).bind fun t ht => (t.readable_read _ _).imp fun page hpage => ?_
    exact fun item hitem => h t (hname ▸ ht) item (hpage item hitem)

/-- And those of a page of a scan. -/
theorem readable_scan {r : ScanRequest} (hname : r.table = name) :
    Readable (s.scan r) fun page => ∀ item ∈ page.items, item.IsKeyed := by
  refine (readable_conditionOf? _).bind fun _ _ => ?_
  refine (s.readable_table _).bind fun t ht => (t.readable_read _ _).imp fun page hpage => ?_
  exact fun item hitem => h t (hname ▸ ht) item (hpage item hitem)

/-- And those found under several keys. -/
theorem readable_batchGet (keys : List Item) :
    Readable (s.batchGet name keys) fun items => ∀ item ∈ items, item.IsKeyed := by
  refine (s.readable_table name).bind fun t ht => (t.readable_batchGet keys).imp fun items hitems => ?_
  exact fun item hitem => h t ht item (hitems item hitem)

end MemoryStore

/-- Going on after a step that looks only. -/
theorem Readable.run_bind {σ α β : Type} {s : σ} {m : Step σ α} {f : α → Step σ β} {P : α → Prop}
    {R : β → Prop} (hlooks : m.LooksOnly) (hm : Readable (m.run s).1 P)
    (hf : ∀ a, P a → Readable ((f a).run s).1 R) : Readable ((m >>= f).run s).1 R := by
  have hstore := hlooks s
  rw [Step.run_bind]
  rcases hrun : m.run s with ⟨result, s'⟩
  rw [hrun] at hm hstore
  obtain rfl : s' = s := hstore
  cases result with
  | ok a => exact hf a hm
  | error fault => exact hm

/-- Following pages of readable records gives readable records. -/
theorem Page.readable_allItems {σ : Type} {fetch : Option Cursor → Step σ (Page Item)} {s : σ}
    {P : Item → Prop} (hlooks : ∀ start, (fetch start).LooksOnly)
    (hfetch : ∀ start, Readable ((fetch start).run s).1 fun page => ∀ item ∈ page.items, P item)
    (budget n : Nat) (start : Option Cursor) :
    Readable ((allItems fetch budget n start).run s).1 fun items => ∀ item ∈ items, P item := by
  induction n generalizing start with
  | zero => exact fun h => by cases h
  | succ n ih =>
      refine (hfetch start).run_bind (hlooks start) fun page hpage => ?_
      cases page.cursor with
      | none => exact hpage
      | some next =>
          refine (ih (some next)).run_bind (looksOnly_allItems hlooks budget n (some next)) ?_
          intro more hmore item hitem
          rcases List.mem_append.mp hitem with hitem | hitem
          · exact hpage item hitem
          · exact hmore item hitem

namespace Repository

variable {config : Config} {s : MemoryStore}

/-- The entities of pages of readable records. -/
theorem readable_collect {fetch : Option Cursor → Step MemoryStore (Page Item)}
    (hlooks : ∀ start, (fetch start).LooksOnly)
    (hfetch : ∀ start,
      Readable ((fetch start).run s).1 fun page => ∀ item ∈ page.items, item.IsKeyed)
    (budget : Nat) (start : Option Cursor) (recursive : Bool) :
    Readable (((inMemory config).collect fetch budget start recursive).run s).1 fun _ => True := by
  have hpages : Readable ((Page.collect fetch budget start recursive).run s).1
      fun page => ∀ item ∈ page.items, item.IsKeyed := by
    cases recursive with
    | false => exact hfetch start
    | true =>
        exact (Page.readable_allItems hlooks hfetch budget budget start).run_bind
          (Page.looksOnly_allItems hlooks budget budget start) fun items hitems => hitems
  have hlooksPages : (Page.collect fetch budget start recursive).LooksOnly := by
    cases recursive with
    | false => exact hlooks start
    | true =>
        exact (Page.looksOnly_allItems hlooks budget budget start).bind fun _ => Step.looksOnly_pure _
  refine hpages.run_bind hlooksPages fun page hpage => ?_
  have hentities : Readable ((inMemory config).entities page) fun _ => True :=
    (Entity.readable_ofItems hpage config.delimiter).map fun _ _ => trivial
  exact hentities.run_bind (Step.looksOnly_ofExcept _) fun _ _ => trivial

/-- **Reading one record** of a store of entities never meets a malformed one. -/
theorem readable_read (h : s.HoldsEntities config.table) (key : Item) :
    Readable (((inMemory config).read key).run s).1 fun _ => True := by
  refine (MemoryStore.readable_get h key).run_bind (Step.looksOnly_inspect _) fun found hfound => ?_
  cases found with
  | none => trivial
  | some item =>
      exact (Entity.readable_ofItem (hfound item rfl) config.delimiter).run_bind
        (Step.looksOnly_ofExcept _) fun _ _ => trivial

/-- **Reading several records** of it does not either. -/
theorem readable_batchGet (h : s.HoldsEntities config.table) (keys : List Item) :
    Readable (((inMemory config).batchGet keys).run s).1 fun _ => True := by
  rw [batchGet]
  split
  · trivial
  · have hfound : Readable ((s.batchGet config.table keys).map some)
        fun found => ∀ items, found = some items → ∀ item ∈ items, item.IsKeyed :=
      (MemoryStore.readable_batchGet h keys).map fun items hitems _ his => Option.some.inj his ▸ hitems
    refine hfound.run_bind (Step.looksOnly_inspect _) fun found hitems => ?_
    cases found with
    | none => trivial
    | some items => exact Entity.readable_ofItems (hitems items rfl) config.delimiter

/-- **No read of a table that holds entities only comes upon a malformed record.** -/
theorem readable_reads (h : s.HoldsEntities config.table) :
    (∀ key, Readable (((inMemory config).read key).run s).1 fun _ => True) ∧
      (∀ budget q, Readable (((inMemory config).query budget q).run s).1 fun _ => True) ∧
      (∀ budget q, Readable (((inMemory config).scan budget q).run s).1 fun _ => True) ∧
      ∀ keys, Readable (((inMemory config).batchGet keys).run s).1 fun _ => True := by
  refine ⟨readable_read h, ?_, ?_, readable_batchGet h⟩
  · intro budget q
    have hlooks (start : Option Cursor) : ((inMemory config).fetchQuery q start).LooksOnly :=
      Step.looksOnly_inspect _
    exact readable_collect hlooks (fun _ => MemoryStore.readable_query h rfl) budget q.start
      q.recursive
  · intro budget q
    have hlooks (start : Option Cursor) : ((inMemory config).fetchScan q start).LooksOnly :=
      Step.looksOnly_inspect _
    exact readable_collect hlooks (fun _ => MemoryStore.readable_scan h rfl) budget q.start q.recursive

/-- A record is an entity, or its key is one of some keys. -/
def Explains (keys : List Item) (record : Item) : Prop :=
  record.IsKeyed ∨ ∃ key ∈ keys, record.get? Attribute.source = key.get? Attribute.source ∧
    record.get? Attribute.target = key.get? Attribute.target

/-- What some keys explain more keys explain. -/
theorem Explains.mono {keys more : List Item} {record : Item} (h : Explains keys record)
    (hsub : keys ⊆ more) : Explains more record :=
  h.imp_right fun ⟨key, hkey, hsame⟩ => ⟨key, hsub hkey, hsame⟩

/-- A table keyed by source and target in which each record is an entity or has one of some keys. -/
structure Explained (config : Config) (keys : List Item) (s : MemoryStore) : Prop where
  keyed : ∃ t, s.table config.table = .ok t ∧
    t.definition.key = ⟨Attribute.source, some Attribute.target⟩
  explains : ∀ t, s.table config.table = .ok t → ∀ record, t.Holds record → Explains keys record

namespace Explained

variable {keys more : List Item} {s' : MemoryStore}

/-- A store that some keys explain is explained by more keys. -/
theorem mono (h : Explained config keys s) (hsub : keys ⊆ more) : Explained config more s :=
  ⟨h.keyed, fun t ht record hrecord => (h.explains t ht record hrecord).mono hsub⟩

/-- A write of such a record, or of none. -/
theorem write (h : Explained config keys s) {key : Item} {written : Option Item}
    (hwrites : s.WritesAt s' config.table key written)
    (hwritten : ∀ record, written = some record → Explains keys record) :
    Explained config keys s' := by
  obtain ⟨t, ht, hdefinition⟩ := h.keyed
  refine ⟨?_, ?_⟩
  · obtain ⟨t', ht', hsame⟩ := hwrites.definition ht
    exact ⟨t', ht', by rw [hsame, hdefinition]⟩
  · intro t' ht' record hrecord
    obtain ⟨_, _, before, after, hbefore, hafter, _, text, _, hnow, hframe⟩ := hwrites
    obtain rfl := Except.ok.inj (ht'.symm.trans hafter)
    obtain ⟨k, hk⟩ := hrecord
    by_cases hkey : k = text
    · rw [hkey, hnow] at hk
      exact hwritten record hk
    · rw [hframe k hkey] at hk
      exact h.explains before hbefore record ⟨k, hk⟩

/-- **One action** adds at most one key, that of a change or mark. -/
theorem after (h : Explained config keys s) {action : Action} {result : Except Error Unit}
    (houtcome : Outcome config action s result s') :
    Explained config (keys ++ (action.updatedKey config).toList) s' := by
  have hmore := h.mono (List.subset_append_left keys (action.updatedKey config).toList)
  cases houtcome with
  | leaves _ => exact hmore
  | files hentity hwrites =>
      refine hmore.write hwrites ?_
      rintro _ ⟨⟩
      exact .inl (Entity.ofItem_isOk_iff.mp ⟨_, hentity⟩)
  | deletes hwrites =>
      refine hmore.write hwrites ?_
      rintro _ ⟨⟩
  | stores hstored =>
      obtain ⟨key, t, hkey, ht, hsame, hwrites⟩ := hstored
      refine hmore.write hwrites ?_
      rintro _ ⟨⟩
      obtain ⟨t', ht', hdefinition⟩ := h.keyed
      obtain rfl := Except.ok.inj (ht.symm.trans ht')
      have hattribute (name : String) (hname : name = Attribute.source ∨ name = Attribute.target) :
          name ∈ t.definition.key.attributes := by
        rcases hname with rfl | rfl <;> simp [hdefinition, KeySchema.attributes]
      exact .inr ⟨key, by simp [hkey], hsame _ (hattribute _ (.inl rfl)),
        hsame _ (hattribute _ (.inr rfl))⟩

/-- All actions of a run add the keys of its changes and marks. -/
theorem runAll (h : Explained config keys s) (actions : List (Int × Action)) :
    Explained config (keys ++ actions.filterMap fun a => a.2.updatedKey config)
      (Step.runAll (fun a => (inMemory config).perform a.1 a.2) actions s).2 := by
  induction actions generalizing keys s with
  | nil => simpa [Step.runAll] using h
  | cons a rest ih =>
      have hrest := ih (h.after (outcome config a.1 a.2 s))
      refine hrest.mono ?_
      intro key hkey
      cases hupdated : a.2.updatedKey config <;> simp_all

/-- Where all these keys are texts, the table holds entities only. -/
theorem holdsEntities (h : Explained config keys s) (hkeys : ∀ key ∈ keys, key.IsKeyed) :
    s.HoldsEntities config.table := by
  intro t ht record hrecord
  obtain hkeyed | ⟨key, hkey, hsource, htarget⟩ := h.explains t ht record hrecord
  · exact hkeyed
  · obtain ⟨source, target, hs, htt⟩ := hkeys key hkey
    exact ⟨source, target, hsource.trans hs, htarget.trans htt⟩

end Explained

/-- The keys under which the changes and marks of a run store records. -/
def updatedKeys (config : Config) (actions : List (Int × Action)) : List Item :=
  actions.filterMap fun a => a.2.updatedKey config

/-- **The records after a run.**  In a table that begins without records, keyed by source and target,
and after any actions at any times, each record is an entity, unless it has the key of a change or mark
of the run and that key is not of two texts.  Where all changes and marks ask for keys of two texts,
each record is an entity, and no read, whatever it asks for, fails because of a malformed record. -/
theorem stored_of_run {config : Config} {s : MemoryStore} {definition : TableDefinition}
    (htable : s.table config.table = .ok ⟨definition, .empty⟩)
    (hkey : definition.key = ⟨Attribute.source, some Attribute.target⟩)
    (actions : List (Int × Action)) :
    let last := (Step.runAll (fun a => (inMemory config).perform a.1 a.2) actions s).2
    (∃ t, last.table config.table = .ok t ∧ ∀ record, t.Holds record →
      (∃ entity, Entity.ofItem config.delimiter record = .ok entity) ∨
        ∃ key ∈ updatedKeys config actions, ¬ key.IsKeyed ∧
          record.get? Attribute.source = key.get? Attribute.source ∧
          record.get? Attribute.target = key.get? Attribute.target) ∧
    ((∀ key ∈ updatedKeys config actions, key.IsKeyed) →
      (∀ t, last.table config.table = .ok t → ∀ record, t.Holds record →
        ∃ entity, Entity.ofItem config.delimiter record = .ok entity) ∧
      (∀ key, Readable (((inMemory config).read key).run last).1 fun _ => True) ∧
      (∀ budget q, Readable (((inMemory config).query budget q).run last).1 fun _ => True) ∧
      (∀ budget q, Readable (((inMemory config).scan budget q).run last).1 fun _ => True) ∧
      ∀ keys, Readable (((inMemory config).batchGet keys).run last).1 fun _ => True) := by
  intro last
  have hbegin : Explained config [] s := by
    refine ⟨⟨_, htable, hkey⟩, fun t ht record hrecord => ?_⟩
    obtain rfl := Except.ok.inj (htable.symm.trans ht)
    obtain ⟨text, htext⟩ := hrecord
    simp at htext
  have hlast : Explained config (updatedKeys config actions) last := hbegin.runAll actions
  refine ⟨?_, fun hkeys => ?_⟩
  · obtain ⟨t, ht, _⟩ := hlast.keyed
    refine ⟨t, ht, fun record hrecord => ?_⟩
    by_cases hkeyed : record.IsKeyed
    · exact .inl (Entity.ofItem_isOk_iff.mpr hkeyed)
    · obtain ⟨key, hkey, hsource, htarget⟩ := (hlast.explains t ht record hrecord).resolve_left hkeyed
      refine .inr ⟨key, hkey, ?_, hsource, htarget⟩
      rintro ⟨source, target, hs, htt⟩
      exact hkeyed ⟨source, target, hsource.trans hs, htarget.trans htt⟩
  · have hentities := hlast.holdsEntities hkeys
    exact ⟨fun t ht record hrecord => Entity.ofItem_isOk_iff.mpr (hentities t ht record hrecord),
      readable_reads hentities⟩

/-- The records of a table that was created in and changed under a key of two texts. -/
theorem stored_of_run_forged :
    let config : Config := { table := "users" }
    let last := (Step.runAll (fun a => (inMemory config).perform a.1 a.2)
      [(5, .create forgedItem), (8, .change forgedChange)] emptyTable).2
    updatedKeys config [(5, .create forgedItem), (8, .change forgedChange)] = [forgedChange.key] ∧
      (∀ t, last.table "users" = .ok t → ∀ record, t.Holds record →
        ∃ entity, Entity.ofItem config.delimiter record = .ok entity) ∧
      ∀ budget q, Readable (((inMemory config).scan budget q).run last).1 fun _ => True := by
  intro config last
  have hupdated : updatedKeys config [(5, .create forgedItem), (8, .change forgedChange)] =
      [forgedChange.key] := rfl
  have hkeyed : forgedChange.key.IsKeyed := ⟨"user#9", "user#9", Item.hasKeys_ofKeys _ _⟩
  have htable : emptyTable.table config.table =
      .ok ⟨⟨"users", ⟨Attribute.source, some Attribute.target⟩, .empty⟩, .empty⟩ := rfl
  obtain ⟨_, hall⟩ := stored_of_run htable rfl [(5, .create forgedItem), (8, .change forgedChange)]
  obtain ⟨hentities, _, _, hscan, _⟩ := hall (by rw [hupdated]; simpa using hkeyed)
  exact ⟨hupdated, hentities, hscan⟩

/-- **A change may store a record that is no entity.** -/
theorem not_stored_of_run :
    ¬ ∀ (config : Config) (s : MemoryStore) (definition : TableDefinition)
      (changes : List (Int × Change)), s.table config.table = .ok ⟨definition, .empty⟩ →
        definition.key = ⟨Attribute.source, some Attribute.target⟩ →
        ∀ t, (Step.runAll (fun c => (inMemory config).change c.1 c.2) changes s).2.table config.table
            = .ok t →
          ∀ record, t.Holds record →
            ∃ entity, Entity.ofItem config.delimiter record = .ok entity := by
  intro hall
  obtain ⟨s', record, hrun, hget, hsource, _⟩ := run_nameNumbered
  obtain ⟨t, ht, hfound⟩ := Condition.bind_eq_ok hget
  obtain ⟨text, _, hrecord⟩ := Table.get_eq_ok hfound
  have hlast : (Step.runAll (fun c => (inMemory { table := "users" }).change c.1 c.2)
      [(0, nameNumbered)] emptyTable).2 = s' := by
    simp only [Step.runAll, hrun]
  have hentity := hall { table := "users" } emptyTable _ [(0, nameNumbered)] rfl rfl t
    (by rw [hlast, ht]) record ⟨text, hrecord⟩
  obtain ⟨source, _, hkeyed, _⟩ := Entity.ofItem_isOk_iff.mp hentity
  cases hsource.symm.trans hkeyed

end Repository

end RecordStore
