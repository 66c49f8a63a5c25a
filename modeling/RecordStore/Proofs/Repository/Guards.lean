import RecordStore.Proofs.Repository.Operations

/-!
# Guards of changes

A change with a guard takes place only if the guard holds.  Where a record is stored under the key, it
is that record that the guard is tried on.  Where none is stored, it is a record with the attributes of
the key alone, since the change would begin with that one: so a guard that asks for no more than the key
lets a change create a record, and a guard that asks for anything else does not.

* `Fields.mem_of_hold_project` — fields that hold of a part of a record name attributes of that part;
* `Repository.change_of_guard` — a guarded change does nothing, or its guard holds;
* `Repository.not_guard_of_stored` — the guard of a change that takes place need not hold of a record
  that is stored.
-/

namespace RecordStore

/-- Fields that hold of a part of a record name attributes of that part. -/
theorem Fields.mem_of_hold_project {fields : Fields} {item : Item} {names : List String}
    (h : fields.Hold (item.project names)) {e : String × Descriptor} (he : e ∈ fields.entries) :
    e.1 ∈ names := by
  obtain ⟨v, hv, _⟩ := h e he
  rw [Item.get?_project_eq] at hv
  by_contra hmem
  rw [if_neg hmem] at hv
  cases hv

namespace Repository

variable {config : Config} {now : Int} {c : Change} {guard : Fields}

/-- **A guarded change does nothing, or its guard holds**: of the record under the key, or of the
attributes of the key where there is none.  In the second case the guard names no other attributes. -/
theorem change_of_guard (hguard : c.guard = some guard) (hproper : guard.IsProper) (s : MemoryStore) :
    (∃ fault, ((inMemory config).change now c).run s = (.error fault, s)) ∨
      ∃ t found, s.table config.table = .ok t ∧ s.get config.table c.key = .ok found ∧
        guard.Hold (found.getD (t.keyOf c.key)) ∧
        ((∃ e ∈ guard.entries, e.1 ∉ t.definition.key.attributes) → found.isSome = true) := by
  obtain hfails | ⟨e, s', he, hupdate, _⟩ := change_cases config now c s
  · exact .inl hfails
  · right
    rw [Change.expressions, hguard] at he
    obtain ⟨t, found, _, ht, hfound, hholds, _⟩ :=
      MemoryStore.update_assigns he (c.isProper_stamped now) hupdate
    have hget : s.get config.table c.key = .ok found := by rw [MemoryStore.get_eq ht, hfound]
    have hspells := Expressions.spells_forUpdate he (.refl _)
    have hhold : guard.Hold (found.getD (t.keyOf c.key)) := by
      obtain ⟨holds, hholds', hiff⟩ := Expressions.decides_of_spells hspells hproper _
      exact hiff.mp (Except.ok.inj (hholds'.symm.trans hholds))
    refine ⟨t, found, ht, hget, hhold, ?_⟩
    rintro ⟨entry, hentry, hother⟩
    cases found with
    | some old => rfl
    | none => exact absurd (Fields.mem_of_hold_project hhold hentry) hother

/-- A table without records. -/
def noUsers : MemoryStore :=
  MemoryStore.empty.createTable ⟨"users", ⟨Attribute.source, some Attribute.target⟩, .empty⟩

/-- Names a user, provided that a field has a value. -/
def naming (field value : String) : Change :=
  ((Change.ofKey (Item.ofRootKey "user#9")).set "name" (.string "Ann")).guarded
    (.ofList [(field, .equals (.string value))])

/-- A guard on another attribute than those of the key is not met where there is no record. -/
theorem change_of_guard_noUsers :
    (naming "name" "Bob").guard = some (.ofList [("name", .equals (.string "Bob"))]) ∧
      Fields.IsProper (.ofList [("name", .equals (.string "Bob"))]) ∧
      ∃ fault, ((inMemory { table := "users" }).change 0 (naming "name" "Bob")).run noUsers =
        (.error fault, noUsers) := by
  have hguard : (naming "name" "Bob").guard = some (.ofList [("name", .equals (.string "Bob"))]) := rfl
  have hproper : Fields.IsProper (.ofList [("name", .equals (.string "Bob"))]) := by decide
  refine ⟨hguard, hproper, ?_⟩
  obtain hfails | ⟨t, found, ht, hget, _, hstored⟩ :=
    @change_of_guard { table := "users" } 0 _ _ hguard hproper noUsers
  · exact hfails
  · exfalso
    have hnone : noUsers.get "users" (naming "name" "Bob").key = .ok none := by decide +kernel
    obtain rfl := Except.ok.inj (hget.symm.trans hnone)
    obtain rfl := Except.ok.inj (ht.symm.trans rfl)
    exact absurd (hstored (by decide)) (by decide)

/-- **The guard of a change that takes place need not hold of a record that is stored**: one that asks
for the key alone lets a change create the record. -/
theorem not_guard_of_stored :
    ¬ ∀ (config : Config) (now : Int) (c : Change) (guard : Fields) (s : MemoryStore),
      s.Reachable → c.guard = some guard → guard.entries ≠ [] → guard.IsProper →
        ∀ answer, (((inMemory config).change now c).run s).1 = .ok answer →
          ∃ old, s.get config.table c.key = .ok (some old) ∧ guard.Hold old := by
  intro hall
  have hreachable : noUsers.Reachable := .createTable _ .empty
  have hnone : noUsers.get "users" (naming Attribute.source "user#9").key = .ok none := by
    decide +kernel
  obtain ⟨answer, hanswer⟩ : ∃ answer, (((inMemory { table := "users" }).change 0
      (naming Attribute.source "user#9")).run noUsers).1 = .ok answer := by
    refine change_isOk hreachable (by decide) rfl rfl (Item.hasKeys_ofKeys _ _) hnone ?_ ?_ ?_
    · decide +kernel
    · have hentries : ((naming Attribute.source "user#9").stamped 0).entries =
          [("name", .equals (.string "Ann")), ("updatedAt", .equals (.ofInt 0))] := by
        decide +kernel
      rw [hentries]
      simp [Descriptor.IsAssignable, Descriptor.CanAssign]
    · decide +kernel
  obtain ⟨old, hold, _⟩ := hall { table := "users" } 0 _ _ noUsers hreachable rfl (by decide)
    (by decide) answer hanswer
  cases hold.symm.trans hnone

end Repository

end RecordStore
