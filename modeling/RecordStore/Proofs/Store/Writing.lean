import RecordStore.Proofs.Store.Resuming
import RecordStore.Proofs.Value.Canonical

/-!
# What a write changes

Putting, changing and removing a record have one thing in common: they change what is stored under one
key, and nothing else.  A key is what a record holds in the attributes of the key, and two records have
the same canonical text for it only if they have the same key.

* `Table.keyText_eq_iff` — the text of a key stands for that key alone;
* `Update.revise` — what an update makes of a record that its guard holds of;
* `Table.WritesAt`, `MemoryStore.WritesAt` — a write under one key;
* `MemoryStore.writesAt_put`, `MemoryStore.writesAt_delete`, `MemoryStore.writesAt_update` — what the
  three writes store under their keys, and when;
* `MemoryStore.WritesAt.get_of_sameKey`, `MemoryStore.WritesAt.get_of_not_sameKey` — what is read after
  a write.
-/

namespace RecordStore

namespace Table

/-- The values of a key are those that the record has, and all of them are there. -/
theorem keyValues_eq_ok_iff {definition : TableDefinition} {item : Item} {names : List String}
    {vs : List Value} :
    keyValues definition item names = .ok vs ↔ names.map item.get? = vs.map some := by
  induction names generalizing vs with
  | nil => cases vs <;> simp [keyValues]
  | cons name rest ih =>
      rw [keyValues, List.map_cons]
      cases item.get? name with
      | none => cases vs <;> simp
      | some v =>
          cases vs with
          | nil => cases keyValues definition item rest <;> simp [Except.map]
          | cons w ws =>
              rw [List.map_cons, List.cons.injEq, Option.some.injEq, ← ih]
              cases keyValues definition item rest <;> simp [Except.map]

variable {t t' : Table} {a b item key : Item} {text : String}

/-- The key of a record: the values of the attributes that make it up. -/
def keyTuple (t : Table) (item : Item) : Except Error (List Value) :=
  keyValues t.definition item t.definition.key.attributes

/-- The text of a key is the canonical text of its values. -/
theorem keyText_eq_map (t : Table) (item : Item) :
    t.keyText item = (t.keyTuple item).map Canonical.tuple := rfl

/-- Two records have the same key: they agree in the attributes that make it up. -/
def SameKey (t : Table) (a b : Item) : Prop :=
  ∀ name ∈ t.definition.key.attributes, a.get? name = b.get? name

instance (t : Table) (a b : Item) : Decidable (t.SameKey a b) :=
  inferInstanceAs (Decidable (∀ name ∈ t.definition.key.attributes, a.get? name = b.get? name))

/-- A record has its own key. -/
theorem SameKey.refl (t : Table) (a : Item) : t.SameKey a a := fun _ _ => rfl

/-- Having the same key goes both ways, -/
theorem SameKey.symm (h : t.SameKey a b) : t.SameKey b a := fun name hname => (h name hname).symm

/-- and is transitive. -/
theorem SameKey.trans {c : Item} (h : t.SameKey a b) (h' : t.SameKey b c) : t.SameKey a c :=
  fun name hname => (h name hname).trans (h' name hname)

/-- Records have the same key where their values are the same. -/
theorem sameKey_iff_of_keyTuple {k : List Value} (ha : t.keyTuple a = .ok k) :
    t.SameKey b a ↔ t.keyTuple b = .ok k := by
  have ha := keyValues_eq_ok_iff.mp ha
  constructor
  · intro h
    refine keyValues_eq_ok_iff.mpr (Eq.trans ?_ ha)
    exact List.map_congr_left h
  · intro hb
    have hmaps := (keyValues_eq_ok_iff.mp hb).trans ha.symm
    exact fun name hname => List.map_inj_left.mp hmaps name hname

/-- **The text of a key stands for that key alone**: records with it agree in the attributes of the
key, and records that agree there have it. -/
theorem keyText_eq_iff (ha : t.keyText a = .ok text) : t.keyText b = .ok text ↔ t.SameKey b a := by
  rw [keyText_eq_map] at ha ⊢
  obtain ⟨k, hkey, rfl⟩ := map_eq_ok ha
  rw [sameKey_iff_of_keyTuple hkey]
  constructor
  · intro htext
    obtain ⟨k', hb, hsame⟩ := map_eq_ok htext
    rw [hb, Canonical.tuple_injective hsame]
  · intro hb
    rw [hb]
    rfl

/-- The text of a key depends on the definition of its table only. -/
theorem keyText_of_definition (h : t'.definition = t.definition) (item : Item) :
    t'.keyText item = t.keyText item := by
  rw [keyText, keyText, h]

/-- The attributes of its key alone are a record with the same key. -/
theorem sameKey_keyOf (t : Table) (item : Item) : t.SameKey (t.keyOf item) item :=
  fun _ hname => Item.get?_project hname item

/-- A record is looked up under the text of its key. -/
theorem get_eq (h : t.keyText key = .ok text) : t.get key = .ok (t.records.get? text) := by
  rw [get, h]
  rfl

/-- Records with the same key find the same. -/
theorem get_congr (h : t.SameKey a b) : t.get a = t.get b := by
  rw [get, get, keyText_congr h]

/-- A look-up that succeeds had a key with a text. -/
theorem get_eq_ok {found : Option Item} (h : t.get key = .ok found) :
    ∃ text, t.keyText key = .ok text ∧ t.records.get? text = found := by
  rw [get] at h
  exact map_eq_ok h

/-- A table in which each record is filed under its own key finds only records with the key. -/
theorem Filed.sameKey_of_get (hfiled : t.Filed) {found : Item} (h : t.get key = .ok (some found)) :
    t.SameKey found key := by
  obtain ⟨text, htext, hrecord⟩ := get_eq_ok h
  exact (keyText_eq_iff htext).mp (hfiled text found hrecord)

/-- **A write under one key.**  Afterwards the key has the given record, or none, and all other keys
have what they had. -/
def WritesAt (t t' : Table) (key : Item) (now : Option Item) : Prop :=
  t'.definition = t.definition ∧ ∃ text, t.keyText key = .ok text ∧ t'.records.get? text = now ∧
    ∀ other, other ≠ text → t'.records.get? other = t.records.get? other

/-- A put writes its record under the key of the record. -/
theorem writesAt_put (h : t.put item = .ok t') : t.WritesAt t' item (some item) := by
  obtain ⟨text, htext, h⟩ := Condition.bind_eq_ok h
  obtain rfl := Except.ok.inj h
  exact ⟨rfl, text, htext, by simp, fun other hother => by simp [hother]⟩

/-- A delete writes that there is none. -/
theorem writesAt_delete (h : t.delete key = .ok t') : t.WritesAt t' key none := by
  obtain ⟨text, htext, h⟩ := Condition.bind_eq_ok h
  obtain rfl := Except.ok.inj h
  exact ⟨rfl, text, htext, by simp, fun other hother => by simp [hother]⟩

/-- A write is read under its key. -/
theorem WritesAt.get_of_sameKey {now : Option Item} {other : Item} (h : t.WritesAt t' key now)
    (hsame : t.SameKey other key) : t'.get other = .ok now := by
  obtain ⟨hdefinition, text, htext, hnow, _⟩ := h
  have hother : t'.keyText other = .ok text := by
    rw [keyText_of_definition hdefinition]
    exact (keyText_eq_iff htext).mpr hsame
  rw [get_eq hother, hnow]

/-- A write is not read under any other key. -/
theorem WritesAt.get_of_not_sameKey {now : Option Item} {other : Item} (h : t.WritesAt t' key now)
    (hother : ¬ t.SameKey other key) : t'.get other = t.get other := by
  obtain ⟨hdefinition, text, htext, _, hframe⟩ := h
  rw [get, get, keyText_of_definition hdefinition]
  cases hkey : t.keyText other with
  | error fault => rfl
  | ok text' =>
      have hne : text' ≠ text := by
        rintro rfl
        exact hother ((keyText_eq_iff htext).mp hkey)
      simp only [Except.map, hframe text' hne]

end Table

/-- What an update makes of a record, if its guard holds of it. -/
def Update.revise (u : Update) (e : Expressions) (current : Item) : Except Error Item := do
  let holds ← (Condition.optionalHolds e.context current e.condition).mapError .expression
  if holds then (u.apply e.context current).mapError .expression
  else .error (.conditionFailed (e.condition.getD ""))

namespace Table

variable {t t' : Table} {key : Item} {e : Expressions} {u : Update}

/-- An update in steps: find the record, or take one with the key alone; revise it; file it again. -/
theorem update_eq (t : Table) (key : Item) (e : Expressions) (u : Update) : t.update key e u = (do
    let text ← t.keyText key
    let changed ← u.revise e ((t.records.get? text).getD (t.keyOf key))
    let newText ← t.keyText changed
    if newText = text then return { t with records := t.records.insert text changed }
    else .error (.argument .keyChanged)) := by
  rw [update]
  cases t.keyText key with
  | error fault => rfl
  | ok text =>
      simp only [Update.revise, bind, Except.bind]
      cases (Condition.optionalHolds e.context ((t.records.get? text).getD (t.keyOf key))
        e.condition).mapError Error.expression with
      | error fault => rfl
      | ok holds =>
          cases holds with
          | false => rfl
          | true =>
              cases (u.apply e.context ((t.records.get? text).getD (t.keyOf key))).mapError
                Error.expression <;> rfl

/-- An update that succeeds writes the revised record, which has the key that it had. -/
theorem writesAt_update (h : t.update key e u = .ok t') :
    ∃ found changed, t.get key = .ok found ∧ u.revise e (found.getD (t.keyOf key)) = .ok changed ∧
      t.SameKey changed key ∧ t.WritesAt t' key (some changed) := by
  rw [update_eq] at h
  obtain ⟨text, htext, h⟩ := Condition.bind_eq_ok h
  obtain ⟨changed, hchanged, h⟩ := Condition.bind_eq_ok h
  obtain ⟨newText, hnew, h⟩ := Condition.bind_eq_ok h
  split at h
  · rename_i heq
    obtain rfl := Except.ok.inj h
    rw [heq] at hnew
    exact ⟨t.records.get? text, changed, get_eq htext, hchanged, (keyText_eq_iff htext).mp hnew,
      rfl, text, htext, by simp, fun other hother => by simp [hother]⟩
  · simp at h

end Table

namespace MemoryStore

variable {s s' : MemoryStore} {name : String} {item key : Item}

/-- **A write under one key of one table.** -/
def WritesAt (s s' : MemoryStore) (name : String) (key : Item) (now : Option Item) : Prop :=
  s'.pageSize = s.pageSize ∧ (∀ other, other ≠ name → s'.table other = s.table other) ∧
    ∃ t t', s.table name = .ok t ∧ s'.table name = .ok t' ∧ t.WritesAt t' key now

/-- Changing one table leaves the others and the bound on pages. -/
theorem modifyTable_eq_ok {f : Table → Except Error Table} (h : s.modifyTable name f = .ok s') :
    s'.pageSize = s.pageSize ∧ (∀ other, other ≠ name → s'.table other = s.table other) ∧
      ∃ t t', s.table name = .ok t ∧ s'.table name = .ok t' ∧ f t = .ok t' := by
  obtain ⟨t, ht, h⟩ := Condition.bind_eq_ok h
  obtain ⟨t', ht', h⟩ := Condition.bind_eq_ok h
  obtain rfl := Except.ok.inj h
  refine ⟨rfl, ?_, t, t', ht, ?_, ht'⟩
  · intro other hother
    simp [table, hother]
  · simp [table]

/-- A put writes to its table only. -/
theorem writesAt_put (h : s.put name item = .ok s') : s.WritesAt s' name item (some item) := by
  obtain ⟨hpage, hother, t, t', ht, ht', hput⟩ := modifyTable_eq_ok h
  exact ⟨hpage, hother, t, t', ht, ht', Table.writesAt_put hput⟩

/-- So does a delete. -/
theorem writesAt_delete (h : s.delete name key = .ok s') : s.WritesAt s' name key none := by
  obtain ⟨hpage, hother, t, t', ht, ht', hdelete⟩ := modifyTable_eq_ok h
  exact ⟨hpage, hother, t, t', ht, ht', Table.writesAt_delete hdelete⟩

/-- **What an update that succeeds has done.**  Its expression can be read, its guard holds of the
record under the key, or of the key alone where there is none, and the revised record is now under that
key, and has it. -/
theorem writesAt_update {r : UpdateRequest} (h : s.update r = .ok s') :
    ∃ text u t found changed, r.expressions.update = some text ∧ Update.ofText text = .ok u ∧
      s.table r.table = .ok t ∧ t.get r.key = .ok found ∧
      u.revise r.expressions (found.getD (t.keyOf r.key)) = .ok changed ∧
      t.SameKey changed r.key ∧ s.WritesAt s' r.table r.key (some changed) := by
  rw [update] at h
  split at h
  · simp at h
  · rename_i text htext
    obtain ⟨u, hu, h⟩ := Condition.bind_eq_ok h
    obtain ⟨hpage, hother, t, t', ht, ht', hupdate⟩ := modifyTable_eq_ok h
    obtain ⟨found, changed, hfound, hchanged, hsame, hwrites⟩ := Table.writesAt_update hupdate
    refine ⟨text, u, t, found, changed, htext, ?_, ht, hfound, hchanged, hsame, hpage, hother, t, t',
      ht, ht', hwrites⟩
    cases hread : Update.ofText text with
    | error fault => simp [hread, Except.mapError] at hu
    | ok u' =>
        rw [hread] at hu
        exact congrArg Except.ok (Except.ok.inj hu)

/-- An update that succeeds is a write under its key. -/
theorem exists_writesAt_of_update {r : UpdateRequest} (h : s.update r = .ok s') :
    ∃ changed, s.WritesAt s' r.table r.key (some changed) := by
  obtain ⟨_, _, _, _, changed, _, _, _, _, _, _, hwrites⟩ := writesAt_update h
  exact ⟨changed, hwrites⟩

/-- A record is looked up in the table with its name. -/
theorem get_eq {t : Table} (h : s.table name = .ok t) (key : Item) : s.get name key = t.get key := by
  rw [get, h]
  rfl

namespace WritesAt

variable {now : Option Item} {other : Item} {t : Table}

/-- A write is read under its key. -/
theorem get_of_sameKey (h : s.WritesAt s' name key now) (ht : s.table name = .ok t)
    (hsame : t.SameKey other key) : s'.get name other = .ok now := by
  obtain ⟨_, _, u, t', hu, ht', hwrites⟩ := h
  obtain rfl := Except.ok.inj (ht.symm.trans hu)
  rw [get_eq ht']
  exact hwrites.get_of_sameKey hsame

/-- A write is not read under any other key. -/
theorem get_of_not_sameKey (h : s.WritesAt s' name key now) (ht : s.table name = .ok t)
    (hother : ¬ t.SameKey other key) : s'.get name other = s.get name other := by
  obtain ⟨_, _, u, t', hu, ht', hwrites⟩ := h
  obtain rfl := Except.ok.inj (ht.symm.trans hu)
  rw [get_eq ht', get_eq ht]
  exact hwrites.get_of_not_sameKey hother

/-- A write leaves the definitions of all tables. -/
theorem definition (h : s.WritesAt s' name key now) {n : String} (ht : s.table n = .ok t) :
    ∃ t', s'.table n = .ok t' ∧ t'.definition = t.definition := by
  obtain ⟨_, hframe, u, t', hu, ht', hwrites⟩ := h
  by_cases hn : n = name
  · subst hn
    obtain rfl := Except.ok.inj (ht.symm.trans hu)
    exact ⟨t', ht', hwrites.1⟩
  · exact ⟨t, by rw [hframe n hn, ht], rfl⟩

end WritesAt

end MemoryStore

end RecordStore
