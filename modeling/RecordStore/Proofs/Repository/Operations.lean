import RecordStore.Proofs.Repository.RecursiveReads
import RecordStore.Proofs.Step
import RecordStore.Proofs.Store.Updating

/-!
# What the operations of a repository do

An operation of a repository compiles what the caller asks for, lets the store carry it out, and reads
records as entities.  The store changes in one place only; whatever fails before it leaves the store
alone, and reading afterwards does so too.

* `Entity.ofItem_of_hasKeys` — the entity of a record with two keys;
* `Repository.looksOnly_read`, `Repository.looksOnly_query`, `Repository.looksOnly_scan`,
  `Repository.looksOnly_batchGet` — reads leave the store;
* `Repository.create_cases`, `Repository.change_cases`, `Repository.remove_cases` — the writes: they fail
  and leave the store, or they have written to it;
* `Repository.exists_update_of_change`, `Repository.change_isOk` — when a change takes place.
-/

namespace RecordStore

/-- Following pages that are looked at only looks. -/
theorem Page.looksOnly_allItems {σ α : Type} {fetch : Option Cursor → Step σ (Page α)}
    (h : ∀ start, (fetch start).LooksOnly) (budget n : Nat) (start : Option Cursor) :
    (allItems fetch budget n start).LooksOnly := by
  induction n generalizing start with
  | zero => exact Step.looksOnly_fail _
  | succ n ih =>
      refine (h start).bind fun page => ?_
      cases page.cursor with
      | none => exact Step.looksOnly_pure _
      | some next => exact (ih (some next)).bind fun _ => Step.looksOnly_pure _

namespace Item

/-- A record has two texts as its keys. -/
def HasKeys (item : Item) (source target : String) : Prop :=
  item.get? Attribute.source = some (.string source) ∧
    item.get? Attribute.target = some (.string target)

instance (item : Item) (source target : String) : Decidable (item.HasKeys source target) :=
  inferInstanceAs (Decidable (_ ∧ _))

/-- A key made of two texts has them as its keys. -/
theorem hasKeys_ofKeys (source target : String) : (ofKeys source target).HasKeys source target := by
  constructor
  · simp [ofKeys, Dict.ofList, Attribute.source, Attribute.target]
  · simp [ofKeys, Dict.ofList]

end Item

namespace Entity

/-- A key attribute can be read if it is a text. -/
theorem keyAttribute_eq_ok_iff {item : Item} {name s : String} :
    keyAttribute item name = .ok s ↔ item.get? name = some (.string s) := by
  unfold keyAttribute
  cases hget : item.get? name with
  | none => simp
  | some v => cases v <;> simp [Value.text?]

/-- The entity of a record with two texts as its keys. -/
theorem ofItem_of_hasKeys {item : Item} {source target : String} (h : item.HasKeys source target)
    (delimiter : Char) :
    ofItem delimiter item = .ok (if source = target then
      withTimes (.root (idOfKey source delimiter)) source target
        (item.insert Attribute.id (.string (idOfKey source delimiter)))
      else withTimes .edge source target item) := by
  simp only [ofItem, keyAttribute_eq_ok_iff.mpr h.1, keyAttribute_eq_ok_iff.mpr h.2, bind,
    Except.bind]
  split <;> rfl

end Entity

/-- A record with texts as its keys is an entity. -/
theorem Item.HasKeys.exists_entity {item : Item} {source target : String}
    (h : item.HasKeys source target) (delimiter : Char) :
    ∃ entity, Entity.ofItem delimiter item = .ok entity :=
  ⟨_, Entity.ofItem_of_hasKeys h delimiter⟩

/-- In a table with these two keys, records with two texts as their keys have the same key if the texts
are the same. -/
theorem Table.sameKey_ofKeys_iff {t : Table}
    (h : t.definition.key = ⟨Attribute.source, some Attribute.target⟩) {item : Item}
    {source target : String} :
    t.SameKey item (Item.ofKeys source target) ↔ item.HasKeys source target := by
  obtain ⟨hsource, htarget⟩ := Item.hasKeys_ofKeys source target
  simp [SameKey, h, KeySchema.attributes, Item.HasKeys, hsource, htarget]

/-- Fields that set an attribute to a value say something. -/
theorem Fields.exists_isProper {fields : Fields} {name : String} {v : Value}
    (h : fields.get? name = some (.equals v)) : ∃ entry ∈ fields.entries, entry.2.IsProper :=
  ⟨(name, .equals v), fields.mem_entries_iff.mpr h, trivial⟩

/-- A change always sets the time. -/
theorem Change.get?_updatedAt_stamped (c : Change) (now : Int) :
    (c.stamped now).get? Attribute.updatedAt = some (.equals (.ofInt now)) := by
  simp [stamped]

/-- A stamped change changes something: at least it sets the time. -/
theorem Change.isProper_stamped (c : Change) (now : Int) :
    ∃ entry ∈ (c.stamped now).entries, entry.2.IsProper :=
  Fields.exists_isProper (c.get?_updatedAt_stamped now)

namespace Repository

variable {config : Config} {now : Int} {s : MemoryStore}

/-- Reading one record leaves the store as it is. -/
theorem looksOnly_read (key : Item) : ((inMemory config).read key).LooksOnly := by
  refine (Step.looksOnly_inspect _).bind fun found => ?_
  cases found with
  | none => exact Step.looksOnly_pure _
  | some item => exact (Step.looksOnly_ofExcept _).bind fun _ => Step.looksOnly_pure _

/-- So does collecting pages whose fetches do, -/
theorem looksOnly_collect {fetch : Option Cursor → Step MemoryStore (Page Item)}
    (h : ∀ start, (fetch start).LooksOnly) (budget : Nat) (start : Option Cursor) (recursive : Bool) :
    ((inMemory config).collect fetch budget start recursive).LooksOnly := by
  have hpages : (Page.collect fetch budget start recursive).LooksOnly := by
    cases recursive with
    | true =>
        exact (Page.looksOnly_allItems h budget budget start).bind fun _ => Step.looksOnly_pure _
    | false => exact h start
  refine hpages.bind fun page => ?_
  exact (Step.looksOnly_ofExcept _).bind fun _ => Step.looksOnly_pure _

/-- a query, -/
theorem looksOnly_query (budget : Nat) (q : Query) : ((inMemory config).query budget q).LooksOnly :=
  looksOnly_collect (fun _ => Step.looksOnly_inspect _) budget q.start q.recursive

/-- a scan, -/
theorem looksOnly_scan (budget : Nat) (q : Scan) : ((inMemory config).scan budget q).LooksOnly :=
  looksOnly_collect (fun _ => Step.looksOnly_inspect _) budget q.start q.recursive

/-- and reading several records. -/
theorem looksOnly_batchGet (keys : List Item) : ((inMemory config).batchGet keys).LooksOnly := by
  rw [batchGet]
  split
  · exact Step.looksOnly_pure _
  · refine (Step.looksOnly_inspect _).bind fun found => ?_
    cases found with
    | none => exact Step.looksOnly_pure _
    | some items => exact Step.looksOnly_ofExcept _

/-- A record that is found is read as an entity, if it is one. -/
theorem run_read {key item : Item} (hget : s.get config.table key = .ok (some item)) :
    ((inMemory config).read key).run s = ((Entity.ofItem config.delimiter item).map some, s) := by
  have hrun : ((inMemory config).store.get (inMemory config).config.table key).run s =
      (.ok (some item), s) := by
    rw [← hget]
    rfl
  rw [read, Step.run_bind, hrun]
  change ((do
    let entity ← Step.ofExcept (Entity.ofItem config.delimiter item)
    return some entity) : Step MemoryStore (Option Entity)).run s = _
  cases Entity.ofItem config.delimiter item <;> rfl

/-- A record with texts as its keys is read as an entity. -/
theorem read_isOk {key item : Item} {source target : String}
    (hget : s.get config.table key = .ok (some item)) (hkeys : item.HasKeys source target) :
    ∃ entity, (((inMemory config).read key).run s).1 = .ok (some entity) := by
  obtain ⟨entity, hentity⟩ := hkeys.exists_entity config.delimiter
  exact ⟨entity, by rw [run_read hget, hentity]; rfl⟩

/-- **A creation** fails and leaves the store, or it has filed the record. -/
theorem create_cases (config : Config) (now : Int) (item : Item) (s : MemoryStore) :
    (∃ fault, ((inMemory config).create now item).run s = (.error fault, s)) ∨
      ∃ entity s', Entity.ofItem config.delimiter (newItem item now) = .ok entity ∧
        s.put config.table (newItem item now) = .ok s' ∧
        ((inMemory config).create now item).run s = (.ok entity, s') := by
  obtain ⟨fault, _, hrun⟩ | ⟨entity, hentity, hrun⟩ :=
    Step.run_ofExcept_bind ((inMemory config).entity (newItem item now)) (fun entity => do
      (inMemory config).store.put config.table (newItem item now)
      return entity) s
  · exact .inl ⟨fault, hrun⟩
  · obtain ⟨fault, _, hput⟩ | ⟨s', hs', hput⟩ :=
      Step.run_replace_bind (fun s => s.put config.table (newItem item now))
        (fun _ => (return entity : Step MemoryStore Entity)) s
    · exact .inl ⟨fault, hrun.trans hput⟩
    · exact .inr ⟨entity, s', hentity, hs', hrun.trans hput⟩

/-- An update, and then the record is read again. -/
theorem update_cases (config : Config) (expressions : Except Error Expressions) (key : Item)
    (s : MemoryStore) :
    let run := ((do
      let e ← Step.ofExcept expressions
      (inMemory config).store.update ⟨config.table, key, e⟩
      (inMemory config).read key) : Step MemoryStore (Option Entity)).run s
    (∃ fault, run = (.error fault, s)) ∨
      ∃ e s', expressions = .ok e ∧ s.update ⟨config.table, key, e⟩ = .ok s' ∧
        run = ((inMemory config).read key).run s' := by
  intro run
  obtain ⟨fault, _, hrun⟩ | ⟨e, he, hrun⟩ :=
    Step.run_ofExcept_bind expressions (fun e => do
      (inMemory config).store.update ⟨config.table, key, e⟩
      (inMemory config).read key) s
  · exact .inl ⟨fault, hrun⟩
  · obtain ⟨fault, _, hupdate⟩ | ⟨s', hs', hupdate⟩ :=
      Step.run_replace_bind (fun s => s.update ⟨config.table, key, e⟩)
        (fun _ => (inMemory config).read key) s
    · exact .inl ⟨fault, hrun.trans hupdate⟩
    · exact .inr ⟨e, s', he, hs', hrun.trans hupdate⟩

/-- **A change** fails and leaves the store, or it has updated it and reads the record again. -/
theorem change_cases (config : Config) (now : Int) (c : Change) (s : MemoryStore) :
    (∃ fault, ((inMemory config).change now c).run s = (.error fault, s)) ∨
      ∃ e s', c.expressions now = .ok e ∧ s.update ⟨config.table, c.key, e⟩ = .ok s' ∧
        ((inMemory config).change now c).run s = ((inMemory config).read c.key).run s' := by
  have hchange : (inMemory config).change now c = (do
      let e ← Step.ofExcept (c.expressions now)
      (inMemory config).store.update ⟨config.table, c.key, e⟩
      (inMemory config).read c.key) := by
    rw [change, Change.request]
    cases c.expressions now <;> rfl
  rw [hchange]
  exact update_cases config (c.expressions now) c.key s

/-- A change whose update succeeds reads the record again. -/
theorem run_change {c : Change} {e : Expressions} {s' : MemoryStore} (he : c.expressions now = .ok e)
    (hupdate : s.update ⟨config.table, c.key, e⟩ = .ok s') :
    ((inMemory config).change now c).run s = ((inMemory config).read c.key).run s' := by
  have hrequest : c.request config.table now = .ok ⟨config.table, c.key, e⟩ := by
    rw [Change.request, he]
    rfl
  rw [change, inMemory, hrequest]
  simp only [Step.run_bind, Step.run_ofExcept, MemoryStore.run_store_update_ok hupdate]

/-- **A change is carried out** if its guard holds, its fields can be assigned to the record under the
key, or to the attributes of the key where there is none, and they leave the key alone. -/
theorem exists_update_of_change {c : Change} (hs : s.Reachable)
    (hproper : (c.guard.getD .empty).IsProper) {t : Table} (ht : s.table config.table = .ok t)
    {found : Option Item} (hfound : t.get c.key = .ok found)
    (hhold : (c.guard.getD .empty).Hold (found.getD (t.keyOf c.key)))
    (hassign : ∀ entry ∈ (c.stamped now).entries, entry.2.IsAssignable ∧
      entry.2.CanAssign ((found.getD (t.keyOf c.key)).get? entry.1))
    (hkey : ∀ n ∈ t.definition.key.attributes, (c.stamped now).get? n = none) :
    ∃ e s' changed, c.expressions now = .ok e ∧ s.update ⟨config.table, c.key, e⟩ = .ok s' ∧
      t.SameKey changed c.key ∧ s.WritesAt s' config.table c.key (some changed) := by
  obtain ⟨assignments, hassignments⟩ := (Expressions.assignments_eq_ok_iff (c.stamped now)).mpr
    fun entry hentry => (hassign entry hentry).1
  obtain ⟨e, he⟩ := Expressions.exists_forUpdate hassignments c.guard
  have hspells := Expressions.spells_forUpdate he (.refl _)
  obtain ⟨holds, hholds, hiff⟩ :=
    Expressions.decides_of_spells hspells hproper (found.getD (t.keyOf c.key))
  rw [hiff.mpr hhold] at hholds
  obtain ⟨s', hupdate⟩ := MemoryStore.exists_update hs he (c.isProper_stamped now) ht hfound hholds
    (fun entry hentry => (hassign entry hentry).2) hkey
  obtain ⟨t', _, changed, ht', _, _, _, hsame, hwrites⟩ :=
    MemoryStore.update_assigns he (c.isProper_stamped now) hupdate
  obtain rfl := Except.ok.inj (ht.symm.trans ht')
  exact ⟨e, s', changed, he, hupdate, hsame, hwrites⟩

/-- **A change takes place** if it is carried out and its key has two texts. -/
theorem change_isOk {c : Change} (hs : s.Reachable)
    (hproper : (c.guard.getD .empty).IsProper) {t : Table} (ht : s.table config.table = .ok t)
    (hdefinition : t.definition.key = ⟨Attribute.source, some Attribute.target⟩)
    {source target : String} (hkeys : c.key.HasKeys source target) {found : Option Item}
    (hfound : t.get c.key = .ok found)
    (hhold : (c.guard.getD .empty).Hold (found.getD (t.keyOf c.key)))
    (hassign : ∀ entry ∈ (c.stamped now).entries, entry.2.IsAssignable ∧
      entry.2.CanAssign ((found.getD (t.keyOf c.key)).get? entry.1))
    (hkey : ∀ n ∈ t.definition.key.attributes, (c.stamped now).get? n = none) :
    ∃ answer, (((inMemory config).change now c).run s).1 = .ok answer := by
  obtain ⟨e, s', changed, he, hupdate, hsame, hwrites⟩ :=
    exists_update_of_change hs hproper ht hfound hhold hassign hkey
  have hchanged : changed.HasKeys source target :=
    (Table.sameKey_ofKeys_iff hdefinition).mp
      (hsame.trans ((Table.sameKey_ofKeys_iff hdefinition).mpr hkeys))
  obtain ⟨entity, hread⟩ := read_isOk (hwrites.get_of_sameKey ht (.refl t c.key)) hchanged
  exact ⟨some entity, by rw [run_change he hupdate, hread]⟩

/-- **A removal** fails and leaves the store, or it has marked the record and reads it again, or it has
deleted the record, as its settings say. -/
theorem remove_cases (config : Config) (now : Int) (removal : Removal) (s : MemoryStore) :
    (∃ fault, ((inMemory config).remove now removal).run s = (.error fault, s)) ∨
      (removal.isSoft config.softDelete = true ∧ ∃ e s',
        Expressions.forUpdate (Fields.deletionMark now) none = .ok e ∧
        s.update ⟨config.table, removal.key, e⟩ = .ok s' ∧
        ((inMemory config).remove now removal).run s =
          ((inMemory config).read removal.key).run s') ∨
      (removal.isSoft config.softDelete = false ∧ ∃ s',
        s.delete config.table removal.key = .ok s' ∧
        ((inMemory config).remove now removal).run s = (.ok none, s')) := by
  cases hsoft : removal.isSoft config.softDelete with
  | true =>
      have hremove : (inMemory config).remove now removal = (do
          let e ← Step.ofExcept (Expressions.forUpdate (Fields.deletionMark now) none)
          (inMemory config).store.update ⟨config.table, removal.key, e⟩
          (inMemory config).read removal.key) := if_pos hsoft
      rw [hremove]
      obtain hfails | hmarks := update_cases config (Expressions.forUpdate (Fields.deletionMark now) none)
        removal.key s
      · exact .inl hfails
      · exact .inr (.inl ⟨rfl, hmarks⟩)
  | false =>
      have hremove : (inMemory config).remove now removal = (do
          (inMemory config).store.delete config.table removal.key
          return none) := if_neg (by simp [inMemory, hsoft])
      rw [hremove]
      obtain ⟨fault, _, hrun⟩ | ⟨s', hs', hrun⟩ :=
        Step.run_replace_bind (fun s => s.delete config.table removal.key)
          (fun _ => (return none : Step MemoryStore (Option Entity))) s
      · exact .inl ⟨fault, hrun⟩
      · exact .inr (.inr ⟨rfl, s', hs', hrun⟩)

end Repository

end RecordStore
