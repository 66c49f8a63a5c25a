import RecordStore.Proofs.Repository.Timestamps

/-!
# What a failure leaves behind

A creation reads its record as an entity before the store is changed, so that a record that is no
entity is never stored by it.  A change and a mark store their record first and read it afterwards.  If
it is no entity then, the call fails, and the record stays.

* `Entity.error_of_ofItem` — why a record is no entity;
* `Repository.outcome` — all that an action can do to a store;
* `Repository.store_of_failure` — a failed action leaves the store, or it has stored such a record;
* `Repository.not_store_of_failure` — the second case occurs.
-/

namespace RecordStore

namespace Entity

/-- The only fault of a key attribute is that it is no text, and the fault names it. -/
theorem error_of_keyAttribute {item : Item} {name : String} {fault : Error}
    (h : keyAttribute item name = .error fault) :
    fault = .malformedEntity name ∧ ∀ text, item.get? name ≠ some (.string text) := by
  refine ⟨?_, ?_⟩
  · unfold keyAttribute at h
    split at h
    · simp at h
    · exact (Except.error.inj h).symm
  · intro text htext
    rw [keyAttribute_eq_ok_iff.mpr htext] at h
    cases h

/-- **Why a record is no entity**: one of the two key attributes is no text, and the fault names it. -/
theorem error_of_ofItem {delimiter : Char} {item : Item} {fault : Error}
    (h : ofItem delimiter item = .error fault) :
    ∃ name, (name = Attribute.source ∨ name = Attribute.target) ∧ fault = .malformedEntity name ∧
      ∀ text, item.get? name ≠ some (.string text) := by
  cases hsource : keyAttribute item Attribute.source with
  | error e =>
      obtain rfl : e = fault := by simpa [ofItem, hsource, bind, Except.bind] using h
      exact ⟨_, .inl rfl, error_of_keyAttribute hsource⟩
  | ok source =>
      cases htarget : keyAttribute item Attribute.target with
      | error e =>
          obtain rfl : e = fault := by simpa [ofItem, hsource, htarget, bind, Except.bind] using h
          exact ⟨_, .inr rfl, error_of_keyAttribute htarget⟩
      | ok target =>
          obtain ⟨entity, hentity⟩ := Item.HasKeys.exists_entity
            ⟨keyAttribute_eq_ok_iff.mp hsource, keyAttribute_eq_ok_iff.mp htarget⟩ delimiter
          cases h.symm.trans hentity

end Entity

namespace Repository

/-- The key of the record that an action stores before it reads it. -/
def Action.updatedKey (config : Config) : Action → Option Item
  | .change c => some c.key
  | .remove removal => if removal.isSoft config.softDelete then some removal.key else none
  | .create _ => none
  | .read _ => none
  | .query _ _ => none
  | .scan _ _ => none
  | .batchGet _ => none

/-- An action has stored a record under the key that it asks for, and nothing else. -/
def Action.Stored (config : Config) (action : Action) (s s' : MemoryStore) (record : Item) : Prop :=
  ∃ key t, action.updatedKey config = some key ∧ s.table config.table = .ok t ∧
    t.SameKey record key ∧ s.WritesAt s' config.table key (some record)

/-- A record is no entity, and a fault says so: one of its key attributes is no text. -/
def IsNoEntity (record : Item) (fault : Error) : Prop :=
  ∃ name, (name = Attribute.source ∨ name = Attribute.target) ∧ fault = .malformedEntity name ∧
    ∀ text, record.get? name ≠ some (.string text)

/-- A record with texts as its keys is an entity. -/
theorem IsNoEntity.not_hasKeys {record : Item} {fault : Error} (h : IsNoEntity record fault)
    (source target : String) : ¬ record.HasKeys source target := by
  rintro ⟨hsource, htarget⟩
  obtain ⟨name, rfl | rfl, _, hno⟩ := h
  · exact hno source hsource
  · exact hno target htarget

/-- What an action can come to: it leaves the store whatever its result, or it files an entity, or it
deletes what is under a key, or it stores a record under the key that it asks for and then reads it. -/
inductive Outcome (config : Config) (action : Action) (s : MemoryStore) :
    Except Error Unit → MemoryStore → Prop where
  | leaves (result : Except Error Unit) : Outcome config action s result s
  | files {s' : MemoryStore} {record : Item} {entity : Entity}
      (hentity : Entity.ofItem config.delimiter record = .ok entity)
      (hwrites : s.WritesAt s' config.table record (some record)) :
      Outcome config action s (.ok ()) s'
  | deletes {s' : MemoryStore} {key : Item} (hwrites : s.WritesAt s' config.table key none) :
      Outcome config action s (.ok ()) s'
  | stores {s' : MemoryStore} {record : Item} (hstored : action.Stored config s s' record) :
      Outcome config action s ((Entity.ofItem config.delimiter record).map fun _ => ()) s'

variable {config : Config} {now : Int} {action : Action} {s s' : MemoryStore} {fault : Error}

/-- An action that looks only leaves the store. -/
theorem outcome_of_looksOnly {α : Type} {m : Step MemoryStore α} (hm : m.LooksOnly) :
    Outcome config action s (m.forget.run s).1 (m.forget.run s).2 := by
  rw [Step.run_forget, hm s]
  exact .leaves _

/-- An update that succeeds, and the record is read after it. -/
theorem outcome_of_update {key : Item} {fields : Fields} {guard : Option Fields} {e : Expressions}
    (haction : action.updatedKey config = some key)
    (he : Expressions.forUpdate fields guard = .ok e)
    (hproper : ∃ entry ∈ fields.entries, entry.2.IsProper)
    (hupdate : s.update ⟨config.table, key, e⟩ = .ok s') :
    let run := ((inMemory config).read key).forget.run s'
    Outcome config action s run.1 run.2 := by
  intro run
  obtain ⟨t, _, record, ht, _, _, _, hsame, hwrites⟩ :=
    MemoryStore.update_assigns he hproper hupdate
  have hrun : run = ((Entity.ofItem config.delimiter record).map fun _ => (), s') := by
    change ((inMemory config).read key).forget.run s' = _
    rw [Step.run_forget, run_read (hwrites.get_of_sameKey ht (.refl t key))]
    cases Entity.ofItem config.delimiter record <;> rfl
  rw [hrun]
  exact .stores ⟨key, t, haction, ht, hsame, hwrites⟩

/-- **What one action comes to.** -/
theorem outcome (config : Config) (now : Int) (action : Action) (s : MemoryStore) :
    Outcome config action s (((inMemory config).perform now action).run s).1
      (((inMemory config).perform now action).run s).2 := by
  cases action with
  | read key => exact outcome_of_looksOnly (looksOnly_read key)
  | query budget q => exact outcome_of_looksOnly (looksOnly_query budget q)
  | scan budget q => exact outcome_of_looksOnly (looksOnly_scan budget q)
  | batchGet keys => exact outcome_of_looksOnly (looksOnly_batchGet keys)
  | create item =>
      rw [perform, Step.run_forget]
      obtain ⟨fault, hrun⟩ | ⟨entity, s', hentity, hput, hrun⟩ := create_cases config now item s
      · rw [hrun]
        exact .leaves _
      · rw [hrun]
        exact .files hentity (MemoryStore.writesAt_put hput)
  | change c =>
      rw [perform]
      obtain ⟨fault, hrun⟩ | ⟨e, s', he, hupdate, hrun⟩ := change_cases config now c s
      · rw [Step.run_forget, hrun]
        exact .leaves _
      · rw [Step.run_forget, hrun, ← Step.run_forget]
        exact outcome_of_update rfl he (c.isProper_stamped now) hupdate
  | remove removal =>
      rw [perform]
      obtain ⟨fault, hrun⟩ | ⟨hsoft, e, s', he, hupdate, hrun⟩ | ⟨_, s', hdelete, hrun⟩ :=
        remove_cases config now removal s
      · rw [Step.run_forget, hrun]
        exact .leaves _
      · rw [Step.run_forget, hrun, ← Step.run_forget]
        have hkey : (Action.remove removal).updatedKey config = some removal.key := if_pos hsoft
        exact outcome_of_update hkey he (Fields.isProper_deletionMark now) hupdate
      · rw [Step.run_forget, hrun]
        exact .deletes (MemoryStore.writesAt_delete hdelete)

/-- **One failed action.**  It has left the store, or it has stored a record that is no entity. -/
theorem Outcome.eq_or_stored (h : Outcome config action s (.error fault) s') :
    s' = s ∨ ∃ record, action.Stored config s s' record ∧ IsNoEntity record fault := by
  generalize hresult : (Except.error fault : Except Error Unit) = result at h
  cases h with
  | leaves _ => exact .inl rfl
  | files _ _ => cases hresult
  | deletes _ => cases hresult
  | @stores s' record hstored =>
      cases hentity : Entity.ofItem config.delimiter record with
      | ok entity =>
          rw [hentity] at hresult
          cases hresult
      | error e =>
          rw [hentity] at hresult
          obtain rfl := Except.error.inj hresult
          exact .inr ⟨record, hstored, Entity.error_of_ofItem hentity⟩

/-- **What a failure leaves behind.**  An action that fails has left the store as it was, or it is a
change or a mark, has stored the record under its key, and that record is no entity, which is what the
failure says.  The second case is ruled out if the table is keyed by source and target and the key of
the action has two texts. -/
theorem store_of_failure
    (h : ((inMemory config).perform now action).run s = (.error fault, s')) :
    (s' = s ∨ ∃ record, action.Stored config s s' record ∧ IsNoEntity record fault) ∧
      ∀ t key source target, s.table config.table = .ok t →
        t.definition.key = ⟨Attribute.source, some Attribute.target⟩ →
        action.updatedKey config = some key → key.HasKeys source target → s' = s := by
  have houtcome := outcome config now action s
  rw [h] at houtcome
  refine ⟨houtcome.eq_or_stored, ?_⟩
  intro t key source target ht hdefinition hkey hkeys
  obtain rfl | ⟨record, ⟨key', t', hkey', ht', hsame, _⟩, hno⟩ := houtcome.eq_or_stored
  · rfl
  · obtain rfl := Option.some.inj (hkey.symm.trans hkey')
    obtain rfl := Except.ok.inj (ht.symm.trans ht')
    have hrecord : record.HasKeys source target :=
      (Table.sameKey_ofKeys_iff hdefinition).mp
        (hsame.trans ((Table.sameKey_ofKeys_iff hdefinition).mpr hkeys))
    exact absurd hrecord (hno.not_hasKeys source target)

/-- A key of two numbers. -/
def numberKey : Item :=
  .ofList [(Attribute.source, .number "1"), (Attribute.target, .number "1")]

/-- Names the record with that key. -/
def nameNumbered : Change := (Change.ofKey numberKey).set "name" (.string "Ann")

/-- The change is carried out on the empty table, it fails, and its record is stored. -/
theorem run_nameNumbered : ∃ s' record,
    ((inMemory { table := "users" }).change 0 nameNumbered).run emptyTable =
        (.error (.malformedEntity Attribute.source), s') ∧
      s'.get "users" numberKey = .ok (some record) ∧
      record.get? Attribute.source = some (.number "1") ∧ s' ≠ emptyTable := by
  have hreachable : emptyTable.Reachable := .createTable _ .empty
  have hentries : (nameNumbered.stamped 0).entries =
      [("name", .equals (.string "Ann")), ("updatedAt", .equals (.ofInt 0))] := by
    decide +kernel
  obtain ⟨e, s', record, he, hupdate, hsame, hwrites⟩ :
      ∃ e s' changed, nameNumbered.expressions 0 = .ok e ∧
        emptyTable.update ⟨"users", numberKey, e⟩ = .ok s' ∧
        Table.SameKey ⟨⟨"users", ⟨Attribute.source, some Attribute.target⟩, .empty⟩, .empty⟩ changed
          numberKey ∧
        emptyTable.WritesAt s' "users" numberKey (some changed) := by
    refine @exists_update_of_change { table := "users" } 0 _ nameNumbered hreachable (by decide) _ rfl
      none (by decide +kernel) ?_ ?_ ?_
    · decide +kernel
    · rw [hentries]
      simp [Descriptor.IsAssignable, Descriptor.CanAssign]
    · decide +kernel
  have hsource : record.get? Attribute.source = some (.number "1") :=
    hsame Attribute.source (by decide)
  have hget : s'.get "users" numberKey = .ok (some record) :=
    hwrites.get_of_sameKey rfl (.refl _ numberKey)
  have hrun := @run_change { table := "users" } 0 _ nameNumbered e s' he hupdate
  have hread := @run_read { table := "users" } s' nameNumbered.key record hget
  have hfails : Entity.ofItem ({ table := "users" } : Config).delimiter record =
      .error (.malformedEntity Attribute.source) := by
    simp [Entity.ofItem, Entity.keyAttribute, hsource, Value.text?, bind, Except.bind]
  refine ⟨s', record, ?_, hget, hsource, ?_⟩
  · rw [hrun, hread, hfails]
    rfl
  · rintro rfl
    have hnone : emptyTable.get "users" numberKey = .ok none := by decide +kernel
    cases hget.symm.trans hnone

theorem store_of_failure_nameNumbered : ∃ s' fault,
    ((inMemory { table := "users" }).perform 0 (.change nameNumbered)).run emptyTable =
        (.error fault, s') ∧
      ∃ record, (Action.change nameNumbered).Stored { table := "users" } emptyTable s' record ∧
        IsNoEntity record fault := by
  obtain ⟨s', record, hrun, _, _, hchanged⟩ := run_nameNumbered
  have hperform : ((inMemory { table := "users" }).perform 0 (.change nameNumbered)).run emptyTable =
      (.error (.malformedEntity Attribute.source), s') := by
    rw [perform, Step.run_forget, hrun]
    rfl
  exact ⟨s', _, hperform, (store_of_failure hperform).1.resolve_left hchanged⟩

/-- **A change that fails need not leave the store as it was.** -/
theorem not_store_of_failure :
    ¬ ∀ (config : Config) (now : Int) (c : Change) (s s' : MemoryStore) (fault : Error), s.Reachable →
      ((inMemory config).change now c).run s = (.error fault, s') → s' = s := by
  intro hall
  obtain ⟨s', record, hrun, _, _, hchanged⟩ := run_nameNumbered
  have hreachable : emptyTable.Reachable := .createTable _ .empty
  exact hchanged (hall _ _ _ _ _ _ hreachable hrun)

end Repository

end RecordStore
