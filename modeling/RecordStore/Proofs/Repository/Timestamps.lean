import RecordStore.Proofs.Repository.Operations
import RecordStore.Proofs.Store.Updating

/-!
# The times of records

A repository stamps records itself: with the time of their creation, of their last change, and of the
deletion that marked them.  Whatever callers put into items and fields, these three attributes of a
record tell when the last actions on its key took place, and nothing else.

`Times` is the account of it that an observer keeps who sees only the actions on a key and whether they
succeeded.  The step lemma is `Repository.Accounts.perform`: one action keeps the record and the account
in agreement.  Runs follow by induction.

* `Repository.Action`, `Repository.perform` — what a caller can do;
* `Repository.timesAfter` — the account of a run;
* `Repository.Accounts` — the record under a key shows the times of the account;
* `Repository.times_of_run` — after every run it does.
-/

namespace RecordStore

/-- When a record was created, last changed, and marked as deleted. -/
structure Times where
  created : Int
  updated : Option Int
  deleted : Option Int
deriving DecidableEq

namespace Times

/-- The reserved attributes of a record tell these times. -/
structure Shows (τ : Times) (record : Item) : Prop where
  created : record.get? Attribute.createdAt = some (.ofInt τ.created)
  updated : record.get? Attribute.updatedAt = τ.updated.map .ofInt
  deleted : record.get? Attribute.deletedAt = τ.deleted.map .ofInt

/-- A change takes place at a time. -/
def change (now : Int) (τ : Times) : Times := { τ with updated := some now }

/-- A record is marked as deleted at a time. -/
def mark (now : Int) (τ : Times) : Times := { τ with updated := some now, deleted := some now }

end Times

section Stamps

variable {now : Int} {name : String} {item : Item}

theorem Item.get?_withoutReserved (item : Item) (name : String) :
    item.withoutReserved.get? name = if name ∈ Attribute.reserved then none else item.get? name := by
  simp only [withoutReserved, Attribute.reserved, List.foldl_cons, List.foldl_nil, Dict.get?_erase,
    List.mem_cons, List.not_mem_nil, or_false]
  by_cases hc : name = Attribute.createdAt <;> by_cases hu : name = Attribute.updatedAt <;>
    by_cases hd : name = Attribute.deletedAt <;> simp [hc, hu, hd]

theorem Fields.get?_withoutReserved (fields : Fields) (name : String) :
    fields.withoutReserved.get? name =
      if name ∈ Attribute.reserved then none else fields.get? name := by
  simp only [withoutReserved, Attribute.reserved, List.foldl_cons, List.foldl_nil,
    OrderedDict.get?_erase, List.mem_cons, List.not_mem_nil, or_false]
  by_cases hc : name = Attribute.createdAt <;> by_cases hu : name = Attribute.updatedAt <;>
    by_cases hd : name = Attribute.deletedAt <;> simp [hc, hu, hd]

/-- A new record tells when it was created, and nothing more. -/
theorem Times.shows_newItem (now : Int) (item : Item) :
    Times.Shows ⟨now, none, none⟩ (Repository.newItem item now) where
  created := by simp [Repository.newItem]
  updated := by
    rw [Repository.newItem, Dict.get?_insert, if_neg (by decide), Item.get?_withoutReserved,
      if_pos (by decide)]
    rfl
  deleted := by
    rw [Repository.newItem, Dict.get?_insert, if_neg (by decide), Item.get?_withoutReserved,
      if_pos (by decide)]
    rfl

/-- A new record has the keys that it was given. -/
theorem Item.hasKeys_newItem {source target : String} :
    (Repository.newItem item now).HasKeys source target ↔ item.HasKeys source target := by
  have hkeep (n : String) (hn : n ∉ Attribute.reserved) :
      (Repository.newItem item now).get? n = item.get? n := by
    have hcreated : n ≠ Attribute.createdAt := fun h => hn (by simp [h, Attribute.reserved])
    rw [Repository.newItem, Dict.get?_insert, if_neg hcreated, Item.get?_withoutReserved, if_neg hn]
  rw [HasKeys, hkeep Attribute.source (by decide), hkeep Attribute.target (by decide)]
  rfl

variable {τ : Times} {record changed : Item}

/-- Whatever a change says, of the times it changes the last one only. -/
theorem Times.Shows.change (h : τ.Shows record) {c : Change}
    (hchanged : ∀ n, changed.get? n = (c.stamped now).assigned record n) :
    (τ.change now).Shows changed := by
  have hother (n : String) (hn : n ≠ Attribute.updatedAt) (hreserved : n ∈ Attribute.reserved) :
      changed.get? n = record.get? n := by
    have hsays : (c.stamped now).get? n = none := by
      rw [Change.stamped, OrderedDict.get?_insert, if_neg hn, Fields.get?_withoutReserved,
        if_pos hreserved]
    rw [hchanged, Fields.assigned, hsays]
  refine ⟨?_, ?_, ?_⟩
  · rw [hother _ (by decide) (by decide)]
    exact h.created
  · rw [hchanged, Fields.assigned, c.get?_updatedAt_stamped now]
    rfl
  · rw [hother _ (by decide) (by decide)]
    exact h.deleted

theorem Fields.get?_deletionMark (now : Int) (name : String) :
    (deletionMark now).get? name =
      if name = Attribute.updatedAt ∨ name = Attribute.deletedAt then some (.equals (.ofInt now))
      else none := by
  have hinserts : (deletionMark now).get? name = ((Dict.empty.insert Attribute.deletedAt
      (Descriptor.equals (.ofInt now))).insert Attribute.updatedAt (.equals (.ofInt now))).get? name := rfl
  rw [hinserts, Dict.get?_insert, Dict.get?_insert, Dict.get?_empty]
  by_cases hu : name = Attribute.updatedAt <;> by_cases hd : name = Attribute.deletedAt <;>
    simp [hu, hd]

/-- A mark sets the time of the last change and that of the deletion. -/
theorem Times.Shows.mark (h : τ.Shows record)
    (hchanged : ∀ n, changed.get? n = (Fields.deletionMark now).assigned record n) :
    (τ.mark now).Shows changed := by
  refine ⟨?_, ?_, ?_⟩
  · rw [hchanged, Fields.assigned, Fields.get?_deletionMark, if_neg (by decide)]
    exact h.created
  · rw [hchanged, Fields.assigned, Fields.get?_deletionMark, if_pos (by decide)]
    rfl
  · rw [hchanged, Fields.assigned, Fields.get?_deletionMark, if_pos (by decide)]
    rfl

theorem Fields.isProper_deletionMark (now : Int) :
    ∃ entry ∈ (deletionMark now).entries, entry.2.IsProper := by
  have hupdated := get?_deletionMark now Attribute.updatedAt
  rw [if_pos (.inl rfl)] at hupdated
  exact exists_isProper hupdated

end Stamps

namespace Repository

/-- What a caller can do. -/
inductive Action where
  | create (item : Item)
  | read (key : Item)
  | change (c : Change)
  | remove (removal : Removal)
  | query (budget : Nat) (q : Query)
  | scan (budget : Nat) (q : Scan)
  | batchGet (keys : List Item)

/-- Carries out an action at a time. -/
def perform {σ : Type} (r : Repository σ) (now : Int) : Action → Step σ Unit
  | .create item => (r.create now item).forget
  | .read key => (r.read key).forget
  | .change c => (r.change now c).forget
  | .remove removal => (r.remove now removal).forget
  | .query budget q => (r.query budget q).forget
  | .scan budget q => (r.scan budget q).forget
  | .batchGet keys => (r.batchGet keys).forget

section Account

variable (config : Config) (source target : String)

/-- What an action makes of the times of the record with two keys: a creation begins with them anew, a
change and a mark go on with them, and a deletion ends them. -/
def Action.times (now : Int) (times : Option Times) : Action → Option Times
  | .create item => if item.HasKeys source target then some ⟨now, none, none⟩ else times
  | .change c => if c.key.HasKeys source target then times.map (Times.change now) else times
  | .remove removal =>
    if removal.key.HasKeys source target then
      if removal.isSoft config.softDelete then times.map (Times.mark now) else none
    else times
  | .read _ => times
  | .query _ _ => times
  | .scan _ _ => times
  | .batchGet _ => times

/-- What an action at a time makes of the times, which is nothing if it fails. -/
def timesThen (times : Option Times) : (Int × Action) × Except Error Unit → Option Times
  | ((now, action), .ok _) => action.times config source target now times
  | (_, .error _) => times

/-- The times that a run of actions leads to, from what each of them gave. -/
def timesAfter (history : List ((Int × Action) × Except Error Unit)) : Option Times :=
  history.foldl (timesThen config source target) none

/-- The record with two keys shows the times of an account, if that has any. -/
structure Accounts (s : MemoryStore) (times : Option Times) : Prop where
  keyed : ∃ t, s.table config.table = .ok t ∧
    t.definition.key = ⟨Attribute.source, some Attribute.target⟩
  shows : ∀ τ, times = some τ → ∃ record,
    s.get config.table (Item.ofKeys source target) = .ok (some record) ∧ τ.Shows record

end Account

namespace Accounts

variable {config : Config} {source target : String} {now : Int} {s s' : MemoryStore}
  {times times' : Option Times} {key : Item} {written : Option Item}

/-- A write under one key keeps the accounts of the other keys. -/
theorem write (h : Accounts config source target s times)
    (hwrites : s.WritesAt s' config.table key written)
    (hthis : key.HasKeys source target → ∀ τ, times' = some τ →
      ∃ record, written = some record ∧ τ.Shows record)
    (hother : ¬ key.HasKeys source target → times' = times) :
    Accounts config source target s' times' := by
  obtain ⟨t, ht, hdefinition⟩ := h.keyed
  have hsame := @Table.sameKey_ofKeys_iff t hdefinition key source target
  refine ⟨?_, ?_⟩
  · obtain ⟨t', ht', hdefinition'⟩ := hwrites.definition ht
    exact ⟨t', ht', by rw [hdefinition', hdefinition]⟩
  · intro τ hτ
    by_cases hkeys : key.HasKeys source target
    · obtain ⟨record, rfl, hshows⟩ := hthis hkeys τ hτ
      exact ⟨record, hwrites.get_of_sameKey ht (hsame.mpr hkeys).symm, hshows⟩
    · obtain ⟨record, hrecord, hshows⟩ := h.shows τ (hother hkeys ▸ hτ)
      have hne : ¬ t.SameKey (Item.ofKeys source target) key := fun h => hkeys (hsame.mp h.symm)
      exact ⟨record, by rw [hwrites.get_of_not_sameKey ht hne, hrecord], hshows⟩

/-- An update keeps the account up to date, if what it does to the record it does to the times; and the
record can be read afterwards. -/
theorem update (h : Accounts config source target s times) {fields : Fields} {guard : Option Fields}
    {e : Expressions} (he : Expressions.forUpdate fields guard = .ok e)
    (hproper : ∃ entry ∈ fields.entries, entry.2.IsProper)
    (hupdate : s.update ⟨config.table, key, e⟩ = .ok s') {f : Times → Times}
    (hf : ∀ τ record changed, Times.Shows τ record →
      (∀ n, changed.get? n = fields.assigned record n) → (f τ).Shows changed) :
    Accounts config source target s' (if key.HasKeys source target then times.map f else times) ∧
      (key.HasKeys source target →
        ∃ answer, (((inMemory config).read key).run s').1 = .ok answer) := by
  obtain ⟨t, found, changed, ht, hfound, _, hchanged, hsame, hwrites⟩ :=
    MemoryStore.update_assigns he hproper hupdate
  obtain ⟨t', ht', hdefinition⟩ := h.keyed
  obtain rfl := Except.ok.inj (ht.symm.trans ht')
  refine ⟨h.write hwrites ?_ fun hkeys => if_neg hkeys, ?_⟩
  · intro hkeys τ hτ
    rw [if_pos hkeys] at hτ
    obtain ⟨before, hbefore, rfl⟩ := Option.map_eq_some_iff.mp hτ
    obtain ⟨record, hrecord, hshows⟩ := h.shows before hbefore
    have hkey : t.SameKey key (Item.ofKeys source target) :=
      (Table.sameKey_ofKeys_iff hdefinition).mpr hkeys
    rw [MemoryStore.get_eq ht, ← Table.get_congr hkey, hfound] at hrecord
    obtain rfl := Except.ok.inj hrecord
    exact ⟨changed, rfl, hf before record changed hshows hchanged⟩
  · intro hkeys
    have hchangedKeys : changed.HasKeys source target :=
      (Table.sameKey_ofKeys_iff hdefinition).mp
        (hsame.trans ((Table.sameKey_ofKeys_iff hdefinition).mpr hkeys))
    obtain ⟨entity, hread⟩ := read_isOk (hwrites.get_of_sameKey ht (.refl t key)) hchangedKeys
    exact ⟨some entity, hread⟩

/-- An update after which the record is read again: the reading fails for other keys only. -/
theorem read_after (h : Accounts config source target s times) {fields : Fields}
    {guard : Option Fields} {e : Expressions} (he : Expressions.forUpdate fields guard = .ok e)
    (hproper : ∃ entry ∈ fields.entries, entry.2.IsProper)
    (hupdate : s.update ⟨config.table, key, e⟩ = .ok s') {f : Times → Times}
    (hf : ∀ τ record changed, Times.Shows τ record →
      (∀ n, changed.get? n = fields.assigned record n) → (f τ).Shows changed)
    {action : Action} (haction : action.times config source target now times =
      if key.HasKeys source target then times.map f else times) :
    let run := ((inMemory config).read key).forget.run s'
    Accounts config source target run.2
      (timesThen config source target times ((now, action), run.1)) := by
  intro run
  obtain ⟨haccounts, hreads⟩ := h.update he hproper hupdate hf
  have hstate : run.2 = s' := by
    change (((inMemory config).read key).forget.run s').2 = s'
    rw [Step.run_forget, looksOnly_read key s']
  have hresult : run.1 = (((inMemory config).read key).run s').1.map fun _ => () := by
    change (((inMemory config).read key).forget.run s').1 = _
    rw [Step.run_forget]
  rw [hstate, hresult]
  cases hread : (((inMemory config).read key).run s').1 with
  | ok answer =>
      change Accounts config source target s' (action.times config source target now times)
      rw [haction]
      exact haccounts
  | error fault =>
      change Accounts config source target s' times
      by_cases hkeys : key.HasKeys source target
      · obtain ⟨answer, hanswer⟩ := hreads hkeys
        rw [hread] at hanswer
        cases hanswer
      · rw [if_neg hkeys] at haccounts
        exact haccounts

/-- An action that looks only, and does not count, keeps the account. -/
theorem looks (h : Accounts config source target s times) {α : Type} {m : Step MemoryStore α}
    (hm : m.LooksOnly) {action : Action}
    (haction : action.times config source target now times = times) :
    Accounts config source target (m.forget.run s).2
      (timesThen config source target times ((now, action), (m.forget.run s).1)) := by
  rw [Step.run_forget, hm s]
  cases (m.run s).1 with
  | ok a =>
      change Accounts config source target s (action.times config source target now times)
      rw [haction]
      exact h
  | error fault => exact h

/-- **One action.**  It keeps the record and the account in agreement. -/
theorem perform (h : Accounts config source target s times) (now : Int) (action : Action) :
    Accounts config source target (((inMemory config).perform now action).run s).2
      (timesThen config source target times
        ((now, action), (((inMemory config).perform now action).run s).1)) := by
  cases action with
  | read key => exact h.looks (looksOnly_read key) rfl
  | query budget q => exact h.looks (looksOnly_query budget q) rfl
  | scan budget q => exact h.looks (looksOnly_scan budget q) rfl
  | batchGet keys => exact h.looks (looksOnly_batchGet keys) rfl
  | create item =>
      rw [Repository.perform, Step.run_forget]
      obtain ⟨fault, hrun⟩ | ⟨entity, s', _, hput, hrun⟩ := create_cases config now item s
      · rw [hrun]
        exact h
      · rw [hrun]
        refine h.write (MemoryStore.writesAt_put hput) ?_ ?_
        · intro hkeys τ hτ
          have htimes : (if item.HasKeys source target then some (Times.mk now none none) else times) =
              some τ := hτ
          rw [if_pos (Item.hasKeys_newItem.mp hkeys)] at htimes
          obtain rfl := Option.some.inj htimes
          exact ⟨newItem item now, rfl, Times.shows_newItem now item⟩
        · intro hkeys
          exact if_neg fun h => hkeys (Item.hasKeys_newItem.mpr h)
  | change c =>
      rw [Repository.perform]
      obtain ⟨fault, hrun⟩ | ⟨e, s', he, hupdate, hrun⟩ := change_cases config now c s
      · rw [Step.run_forget, hrun]
        exact h
      · rw [Step.run_forget, hrun, ← Step.run_forget]
        exact h.read_after he (c.isProper_stamped now) hupdate
          (fun τ record changed hshows hchanged => hshows.change hchanged) rfl
  | remove removal =>
      rw [Repository.perform]
      obtain ⟨fault, hrun⟩ | ⟨hsoft, e, s', he, hupdate, hrun⟩ | ⟨hhard, s', hdelete, hrun⟩ :=
        remove_cases config now removal s
      · rw [Step.run_forget, hrun]
        exact h
      · rw [Step.run_forget, hrun, ← Step.run_forget]
        refine h.read_after he (Fields.isProper_deletionMark now) hupdate
          (fun τ record changed hshows hchanged => hshows.mark hchanged) ?_
        simp only [Action.times, hsoft, if_true]
      · rw [Step.run_forget, hrun]
        refine h.write (MemoryStore.writesAt_delete hdelete) ?_ fun hkeys => if_neg hkeys
        intro hkeys τ hτ
        have htimes : timesThen config source target times ((now, .remove removal), .ok ()) = none := by
          simp only [timesThen, Action.times, if_pos hkeys, hhard, Bool.false_eq_true, if_false]
        cases htimes.symm.trans hτ

/-- All actions of a run keep the record and the account in agreement. -/
theorem runAll (h : Accounts config source target s times) (actions : List (Int × Action)) :
    let run := Step.runAll (fun a => (inMemory config).perform a.1 a.2) actions s
    Accounts config source target run.2
      ((actions.zip run.1).foldl (timesThen config source target) times) := by
  induction actions generalizing s times with
  | nil => exact h
  | cons a rest ih => exact ih (h.perform a.1 a.2)

end Accounts

/-- **The times of a record are those of the actions on its key.**  In a table that begins without
records, keyed by source and target, and after any actions at any times and with any items and fields,
the record with two keys shows when it was created by the last creation that succeeded, when the last
change or mark since then succeeded, and when the last mark since then succeeded, up to its deletion. -/
theorem times_of_run {config : Config} {s : MemoryStore} {definition : TableDefinition}
    (htable : s.table config.table = .ok ⟨definition, .empty⟩)
    (hkey : definition.key = ⟨Attribute.source, some Attribute.target⟩)
    (actions : List (Int × Action)) (source target : String) :
    let run := Step.runAll (fun a => (inMemory config).perform a.1 a.2) actions s
    ∀ τ, timesAfter config source target (actions.zip run.1) = some τ →
      ∃ record, run.2.get config.table (Item.ofKeys source target) = .ok (some record) ∧
        τ.Shows record := by
  have hbegin : Accounts config source target s none :=
    ⟨⟨_, htable, hkey⟩, fun τ hτ => by cases hτ⟩
  exact (hbegin.runAll actions).shows

/-- An empty table keyed by source and target. -/
def emptyTable : MemoryStore :=
  MemoryStore.empty.createTable ⟨"users", ⟨Attribute.source, some Attribute.target⟩, .empty⟩

/-- A record that claims to be older than it is. -/
def forgedItem : Item := (Item.ofRootKey "user#9").insert Attribute.createdAt (.ofInt 1)

/-- A change that would clear the mark of a deletion, and sets a field with the spelling of another
time. -/
def forgedChange : Change :=
  ((Change.ofKey (Item.ofRootKey "user#9")).set Attribute.deletedAt .null).set "updated at" (.ofInt 2)

/-- The table with that record in it. -/
def forgedTable : MemoryStore :=
  ((MemoryStore.store.put "users" (newItem forgedItem 5)).run emptyTable).2

/-- The times of a record that was created and changed, whatever the caller claims. -/
theorem times_of_run_forged :
    emptyTable.table "users" =
        .ok ⟨⟨"users", ⟨Attribute.source, some Attribute.target⟩, .empty⟩, .empty⟩ ∧
      ∃ record, (Step.runAll (fun a => (inMemory { table := "users" }).perform a.1 a.2)
          [(5, .create forgedItem), (8, .change forgedChange)] emptyTable).2.get "users"
            (Item.ofKeys "user#9" "user#9") = .ok (some record) ∧
        Times.Shows ⟨5, some 8, none⟩ record := by
  have htable : emptyTable.table "users" =
      .ok ⟨⟨"users", ⟨Attribute.source, some Attribute.target⟩, .empty⟩, .empty⟩ := rfl
  have hcreate : ((inMemory { table := "users" }).perform 5 (.create forgedItem)).run emptyTable =
      (.ok (), forgedTable) := by
    decide +kernel
  have hchange : (((inMemory { table := "users" }).perform 8 (.change forgedChange)).run
      forgedTable).1 = .ok () := by
    have hreachable : forgedTable.Reachable :=
      (MemoryStore.Reachable.empty.createTable _).run_put "users" (newItem forgedItem 5)
    have hentries : (forgedChange.stamped 8).entries =
        [("updated at", .equals (.ofInt 2)), ("updatedAt", .equals (.ofInt 8))] := by
      decide +kernel
    obtain ⟨answer, hanswer⟩ : ∃ answer, (((inMemory { table := "users" }).change 8
        forgedChange).run forgedTable).1 = .ok answer := by
      refine @change_isOk { table := "users" } 8 _ _ hreachable (by decide) _ rfl rfl _ _
        (Item.hasKeys_ofKeys _ _) (some (newItem forgedItem 5)) (by decide +kernel) ?_ ?_ ?_
      · decide +kernel
      · rw [hentries]
        simp [Descriptor.IsAssignable, Descriptor.CanAssign]
      · decide +kernel
    rw [perform, Step.run_forget, hanswer]
    rfl
  refine ⟨htable, times_of_run htable rfl _ "user#9" "user#9" _ ?_⟩
  have hresults : (Step.runAll (fun a => (inMemory { table := "users" }).perform a.1 a.2)
      [(5, .create forgedItem), (8, .change forgedChange)] emptyTable).1 = [.ok (), .ok ()] := by
    simp only [Step.runAll, hcreate, hchange]
  rw [hresults]
  decide

end Repository

end RecordStore
