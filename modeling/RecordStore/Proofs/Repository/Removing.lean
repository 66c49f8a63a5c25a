import RecordStore.Proofs.Repository.Timestamps
import RecordStore.Proofs.Store.Counting

/-!
# What a removal leaves behind

A removal for good takes a record away, or finds none and changes nothing.  A removal by a mark is an
update, and an update of a key without a record begins with the attributes of that key.  So a mark is put
on a record that is not there: it is stored, with its key, the two times and nothing else, and the number
of records rises by one.  In every other case the number does not rise.

* `Repository.run_remove_hard`, `Repository.remove_soft_cases` — the two kinds of removals;
* `Repository.StoresMark` — one record more, made of a key and the mark of its deletion;
* `Repository.count_remove_of_stored`, `Repository.run_remove_hard_of_absent`,
  `Repository.storesMark_of_absent`, `Repository.storesMark_of_key` — what they do to the number of
  records;
* `Repository.removing_creates_only_marks` — removals of both kinds, by what was stored before;
* `Repository.not_removing_creates_nothing` — the count after a mark on no record.
-/

namespace RecordStore

namespace Fields

/-- The fields of a mark set the time. -/
theorem eq_of_mem_deletionMark {now : Int} {entry : String × Descriptor}
    (h : entry ∈ (deletionMark now).entries) : entry.2 = .equals (.ofInt now) := by
  have hget := (deletionMark now).mem_entries_iff.mp h
  rw [get?_deletionMark] at hget
  split at hget
  · exact (Option.some.inj hget).symm
  · cases hget

/-- The update that marks a record can be compiled, and has no guard. -/
theorem exists_forUpdate_deletionMark (now : Int) :
    ∃ e, Expressions.forUpdate (deletionMark now) none = .ok e ∧ e.condition = none := by
  have hassignable : ∀ entry ∈ (deletionMark now).entries, entry.2.IsAssignable := by
    intro entry hentry
    rw [eq_of_mem_deletionMark hentry]
    trivial
  obtain ⟨assignments, hassignments⟩ := (Expressions.assignments_eq_ok_iff _).mpr hassignable
  obtain ⟨e, he⟩ := Expressions.exists_forUpdate hassignments none
  obtain ⟨_, _, _, hcondition, _⟩ := Expressions.forUpdate_eq_ok he
  exact ⟨e, he, hcondition⟩

end Fields

namespace Repository

variable {config : Config} {removal : Removal} {s : MemoryStore} {found : Option Item} (now : Int)

/-- **A removal for good** succeeds under every key that can be looked for. -/
theorem run_remove_hard (hhard : removal.isSoft config.softDelete = false)
    (hget : s.get config.table removal.key = .ok found) :
    ∃ s', ((inMemory config).remove now removal).run s = (.ok none, s') ∧
      s.WritesAt s' config.table removal.key none := by
  obtain ⟨s', hdelete⟩ := MemoryStore.exists_delete_of_get hget
  have hremove : (inMemory config).remove now removal = (do
      (inMemory config).store.delete config.table removal.key
      return none) := if_neg (by simp [inMemory, hhard])
  refine ⟨s', ?_, MemoryStore.writesAt_delete hdelete⟩
  rw [hremove]
  obtain ⟨fault, hfault, _⟩ | ⟨s'', hs'', hrun⟩ :=
    Step.run_replace_bind (fun s => s.delete config.table removal.key)
      (fun _ => (return none : Step MemoryStore (Option Entity))) s
  · rw [hdelete] at hfault
    cases hfault
  · rw [hdelete] at hs''
    obtain rfl := Except.ok.inj hs''
    exact hrun

/-- **A removal by a mark** fails and leaves the store, or it has stored under the key what was there, or
the attributes of the key where nothing was, with the mark. -/
theorem remove_soft_cases (hsoft : removal.isSoft config.softDelete = true) :
    let run := ((inMemory config).remove now removal).run s
    (∃ fault, run = (.error fault, s)) ∨
      ∃ t found mark, s.table config.table = .ok t ∧
        s.get config.table removal.key = .ok found ∧
        (∀ n, mark.get? n =
          (Fields.deletionMark now).assigned (found.getD (t.keyOf removal.key)) n) ∧
        s.WritesAt run.2 config.table removal.key (some mark) := by
  intro run
  obtain hfails | ⟨_, e, s', he, hupdate, hrun⟩ | ⟨hhard, _⟩ := remove_cases config now removal s
  · exact .inl hfails
  · obtain ⟨t, found, mark, ht, hfound, _, hmark, _, hwrites⟩ :=
      MemoryStore.update_assigns he (Fields.isProper_deletionMark now) hupdate
    have hafter : run.2 = s' := (congrArg Prod.snd hrun).trans (looksOnly_read removal.key s')
    refine .inr ⟨t, found, mark, ht, (MemoryStore.get_eq ht _).trans hfound, hmark, ?_⟩
    rw [hafter]
    exact hwrites
  · rw [hsoft] at hhard
    cases hhard

/-- A removal by a mark whose update succeeds reads the record again. -/
theorem run_remove_soft (hsoft : removal.isSoft config.softDelete = true) {e : Expressions}
    (he : Expressions.forUpdate (Fields.deletionMark now) none = .ok e) {s' : MemoryStore}
    (hupdate : s.update ⟨config.table, removal.key, e⟩ = .ok s') :
    ((inMemory config).remove now removal).run s = ((inMemory config).read removal.key).run s' := by
  have hremove : (inMemory config).remove now removal = (do
      let e ← Step.ofExcept (Expressions.forUpdate (Fields.deletionMark now) none)
      (inMemory config).store.update ⟨config.table, removal.key, e⟩
      (inMemory config).read removal.key) := if_pos hsoft
  rw [hremove, he, inMemory]
  simp only [Step.run_bind, Step.run_ofExcept, MemoryStore.run_store_update_ok hupdate]

/-- **A mark is not refused**, unless it would change the key. -/
theorem exists_mark (hs : s.Reachable) (hsoft : removal.isSoft config.softDelete = true) {t : Table}
    (ht : s.table config.table = .ok t) (hget : s.get config.table removal.key = .ok found)
    (hkey : ∀ n ∈ t.definition.key.attributes, n ≠ Attribute.updatedAt ∧ n ≠ Attribute.deletedAt) :
    ∃ s', ((inMemory config).remove now removal).run s =
        ((inMemory config).read removal.key).run s' ∧
      ∃ mark, s.WritesAt s' config.table removal.key (some mark) := by
  obtain ⟨e, he, hunguarded⟩ := Fields.exists_forUpdate_deletionMark now
  have hfound : t.get removal.key = .ok found := (MemoryStore.get_eq ht _).symm.trans hget
  have hassign : ∀ entry ∈ (Fields.deletionMark now).entries,
      entry.2.CanAssign ((found.getD (t.keyOf removal.key)).get? entry.1) := by
    intro entry hentry
    rw [Fields.eq_of_mem_deletionMark hentry]
    trivial
  have hleaves : ∀ n ∈ t.definition.key.attributes, (Fields.deletionMark now).get? n = none := by
    intro n hn
    rw [Fields.get?_deletionMark, if_neg (not_or.mpr (hkey n hn))]
  obtain ⟨s', hupdate⟩ := MemoryStore.exists_update hs he (Fields.isProper_deletionMark now) ht hfound
    (by rw [hunguarded]; rfl) hassign hleaves
  exact ⟨s', run_remove_soft now hsoft he hupdate, MemoryStore.exists_writesAt_of_update hupdate⟩

/-- One record more is stored: under the key, and made of the key and the mark of its deletion. -/
def StoresMark (s s' : MemoryStore) (name : String) (now : Int) (key : Item) : Prop :=
  ∃ t mark m, s.table name = .ok t ∧ s.WritesAt s' name key (some mark) ∧
    (∀ n, mark.get? n = (Fields.deletionMark now).assigned (t.keyOf key) n) ∧
    s.count name = .ok m ∧ s'.count name = .ok (m + 1)

/-- **A removal by a mark of no record** fails and leaves the store, or it stores the mark. -/
theorem storesMark_of_absent (hsoft : removal.isSoft config.softDelete = true)
    (hget : s.get config.table removal.key = .ok none) :
    let run := ((inMemory config).remove now removal).run s
    (∃ fault, run = (.error fault, s)) ∨ StoresMark s run.2 config.table now removal.key := by
  intro run
  obtain hfails | ⟨t, found, mark, ht, hfound, hmark, hwrites⟩ :=
    remove_soft_cases (s := s) now hsoft
  · exact .inl hfails
  · obtain rfl := Except.ok.inj (hget.symm.trans hfound)
    obtain ⟨m, n, hm, hn, hcount⟩ := hwrites.count_add hget
    obtain rfl : n = m + 1 := hcount
    exact .inr ⟨t, mark, m, ht, hwrites, hmark, hm, hn⟩

/-- In a table with a key of other attributes it does store the mark. -/
theorem storesMark_of_key (hs : s.Reachable) (hsoft : removal.isSoft config.softDelete = true)
    (hget : s.get config.table removal.key = .ok none) {t : Table} (ht : s.table config.table = .ok t)
    (hkey : ∀ n ∈ t.definition.key.attributes, n ≠ Attribute.updatedAt ∧ n ≠ Attribute.deletedAt) :
    StoresMark s (((inMemory config).remove now removal).run s).2 config.table now removal.key := by
  obtain ⟨fault, hfails⟩ | hstores := storesMark_of_absent now hsoft hget
  · obtain ⟨s', hrun, mark, hwrites⟩ := exists_mark now hs hsoft ht hget hkey
    have hafter : s = s' :=
      (congrArg Prod.snd (hfails.symm.trans hrun)).trans (looksOnly_read removal.key s')
    have hmarked := hwrites.get_of_sameKey ht (.refl t removal.key)
    rw [← hafter, hget] at hmarked
    cases hmarked
  · exact hstores

/-- A key without a record is read without success. -/
theorem run_read_none {key : Item} (hget : s.get config.table key = .ok none) :
    ((inMemory config).read key).run s = (.ok none, s) := by
  have hrun : ((inMemory config).store.get (inMemory config).config.table key).run s =
      (.ok none, s) := by
    rw [← hget]
    rfl
  rw [read, Step.run_bind, hrun]
  rfl

/-- **A removal for good of no record** changes nothing. -/
theorem run_remove_hard_of_absent (hhard : removal.isSoft config.softDelete = false)
    (hget : s.get config.table removal.key = .ok none) :
    ((inMemory config).remove now removal).run s = (.ok none, s) := by
  obtain ⟨s', hrun, hwrites⟩ := run_remove_hard now hhard hget
  rw [hrun, hwrites.eq_of_get hget]

/-- **A removal of a stored record** leaves the number of records, or makes it one less for good. -/
theorem count_remove_of_stored {record : Item}
    (hget : s.get config.table removal.key = .ok (some record)) :
    ∃ m n, s.count config.table = .ok m ∧
      (((inMemory config).remove now removal).run s).2.count config.table = .ok n ∧
      n + (if removal.isSoft config.softDelete then 0 else 1) = m := by
  cases hsoft : removal.isSoft config.softDelete with
  | true =>
      obtain ⟨fault, hfails⟩ | ⟨_, _, mark, _, _, _, hwrites⟩ :=
        remove_soft_cases (s := s) now hsoft
      · obtain ⟨t, ht, _⟩ := Condition.bind_eq_ok hget
        rw [hfails]
        exact ⟨_, _, MemoryStore.count_eq ht, MemoryStore.count_eq ht, rfl⟩
      · obtain ⟨m, n, hm, hn, hcount⟩ := hwrites.count_add hget
        exact ⟨m, n, hm, hn, Nat.succ.inj hcount⟩
  | false =>
      obtain ⟨s', hrun, hwrites⟩ := run_remove_hard now hsoft hget
      obtain ⟨m, n, hm, hn, hcount⟩ := hwrites.count_add hget
      rw [hrun]
      exact ⟨m, n, hm, hn, hcount⟩

/-- A removal under a key that cannot be looked for fails. -/
theorem remove_fails_of_get {fault : Error} (hget : s.get config.table removal.key = .error fault) :
    ∃ fault, ((inMemory config).remove now removal).run s = (.error fault, s) := by
  have hnever : ∀ s' written, ¬ s.WritesAt s' config.table removal.key written := by
    intro s' written hwrites
    obtain ⟨found, hfound⟩ := hwrites.exists_get
    cases hget.symm.trans hfound
  obtain hfails | ⟨_, e, s', _, hupdate, _⟩ | ⟨_, s', hdelete, _⟩ := remove_cases config now removal s
  · exact hfails
  · obtain ⟨_, hwrites⟩ := MemoryStore.exists_writesAt_of_update hupdate
    exact absurd hwrites (hnever _ _)
  · exact absurd (MemoryStore.writesAt_delete hdelete) (hnever _ _)

/-- **A removal creates nothing but marks.**  Take any store that can be reached, any settings and any
removal.  If its key cannot be looked for, the removal fails and leaves the store.  If a record is stored
under the key, the number of records stays where it is marked, and falls by one where it goes for good.
If none is stored, a removal for good leaves the store, and the key is then read without success; but a
removal by a mark fails and leaves the store, or it stores the mark as one record more.  It does the
latter in every table whose key is made of other attributes than those of the mark. -/
theorem removing_creates_only_marks (hs : s.Reachable) (config : Config) (removal : Removal) :
    let run := ((inMemory config).remove now removal).run s
    let stored := s.get config.table removal.key
    let soft := removal.isSoft config.softDelete
    (∀ fault, stored = .error fault → ∃ fault, run = (.error fault, s)) ∧
    (∀ record, stored = .ok (some record) → ∃ m n, s.count config.table = .ok m ∧
      run.2.count config.table = .ok n ∧ n + (if soft then 0 else 1) = m) ∧
    (stored = .ok none → soft = false →
      run = (.ok none, s) ∧ ((inMemory config).read removal.key).run run.2 = (.ok none, s)) ∧
    (stored = .ok none → soft = true →
      (∃ fault, run = (.error fault, s)) ∨ StoresMark s run.2 config.table now removal.key) ∧
    ∀ t, s.table config.table = .ok t → stored = .ok none → soft = true →
      (∀ n ∈ t.definition.key.attributes, n ≠ Attribute.updatedAt ∧ n ≠ Attribute.deletedAt) →
        StoresMark s run.2 config.table now removal.key := by
  intro run stored soft
  refine ⟨fun fault hget => remove_fails_of_get now hget,
    fun record hget => count_remove_of_stored now hget, ?_,
    fun hget hsoft => storesMark_of_absent now hsoft hget, ?_⟩
  · intro hget hhard
    have hrun : run = (.ok none, s) := run_remove_hard_of_absent now hhard hget
    exact ⟨hrun, by rw [hrun]; exact run_read_none hget⟩
  · intro t ht hget hsoft hkey
    exact storesMark_of_key now hs hsoft hget ht hkey

/-- Removes a user in the way that the settings choose, which is by a mark if they say nothing. -/
def removeUser : Removal := ⟨Item.ofRootKey "user#9", none⟩

/-- The mark of a user who is not there is stored, and it is the only record. -/
theorem removing_creates_only_marks_emptyTable :
    emptyTable.Reachable ∧ emptyTable.get "users" removeUser.key = .ok none ∧
      StoresMark emptyTable (((inMemory { table := "users" }).remove 0 removeUser).run emptyTable).2
        "users" 0 removeUser.key := by
  have hreachable : emptyTable.Reachable := .createTable _ .empty
  have hnone : emptyTable.get "users" removeUser.key = .ok none := by decide +kernel
  exact ⟨hreachable, hnone, (removing_creates_only_marks 0 hreachable { table := "users" }
    removeUser).2.2.2.2 _ rfl hnone rfl (by decide)⟩

/-- **A removal can raise the number of records**: that of no record by a mark makes it one more. -/
theorem not_removing_creates_nothing :
    ¬ ∀ (s : MemoryStore) (config : Config) (now : Int) (removal : Removal) (m n : Nat), s.Reachable →
      s.count config.table = .ok m →
        (((inMemory config).remove now removal).run s).2.count config.table = .ok n → n ≤ m := by
  intro hall
  have hreachable : emptyTable.Reachable := .createTable _ .empty
  have hnone : emptyTable.get "users" removeUser.key = .ok none := by decide +kernel
  obtain ⟨_, _, m, _, _, _, hbefore, hafter⟩ :=
    @storesMark_of_key { table := "users" } removeUser _ 0 hreachable rfl hnone _ rfl (by decide)
  have hle := hall emptyTable { table := "users" } 0 removeUser m (m + 1) hreachable hbefore hafter
  exact absurd hle (Nat.not_succ_le_self m)

end Repository

end RecordStore
