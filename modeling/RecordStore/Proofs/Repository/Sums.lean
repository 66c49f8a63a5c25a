import Mathlib.Algebra.BigOperators.Group.Finset.Basic
import Mathlib.Data.Fintype.Powerset
import RecordStore.Proofs.Repository.Versions

/-!
# Sums over a record

Clients that count an attribute of a record up or down, each by whole numbers of its own, and without
a guard, lose nothing of what the others have counted, and nothing of it is rounded: as long as every
number that is reached on the way is below 2^53 in magnitude, the attribute is in the end the number
that it was and the sum of what the updates that were carried out have added.

Each update reads the number and writes the sum in a single step of the store, so that no other update
comes between them; and it writes the sum in its digits, from which the next one reads it exactly.

* `Change.Adds` — what a change adds to an attribute of the record under a key;
* `Repository.number_of_update` — what an update that is carried out does to the attribute;
* `Repository.Summed.advance` — one turn, whoever's it is;
* `Repository.sums_of_serve` — every schedule.
-/

namespace RecordStore

/-- Below 2^53 in magnitude, a whole number that grows is written in its digits. -/
theorem Descriptor.assigned_increment_eq {v delta : Value} {i j : Int} (hv : v.IsInt i)
    (hdelta : delta.IsInt j) (h : (i + j).natAbs < 2 ^ Binary64.precision) :
    (Descriptor.increment delta).assigned (some v) = some (.ofInt (i + j)) := by
  obtain ⟨x, y, hx, hy, hsum⟩ := Value.exists_add_eq_ofInt hv hdelta h
  simp [assigned, hx, hy, hsum]

namespace Change

variable {c : Change} {t now : Table} {key record : Item} {name : String} {n d : Int}

/-- A change counts an attribute of the record under a key. -/
def Increments (c : Change) (t : Table) (key : Item) (name : String) : Prop :=
  t.SameKey c.key key ∧ ∃ delta, c.fields.get? name = some (.increment delta)

/-- What a change adds to an attribute of the record under a key: the whole number that it counts it
by, and nothing if it leaves it alone or is about another record. -/
inductive Adds (c : Change) (t : Table) (key : Item) (name : String) : Int → Prop where
  | increments {delta : Value} {d : Int} (hsame : t.SameKey c.key key)
      (hfield : c.fields.get? name = some (.increment delta)) (hdelta : delta.IsInt d) :
      Adds c t key name d
  | leaves (hsame : t.SameKey c.key key) (hfield : c.fields.get? name = none) : Adds c t key name 0
  | elsewhere (hother : ¬ t.SameKey c.key key) : Adds c t key name 0

/-- An attribute that is a whole number never keeps a change that adds to it from being carried out. -/
theorem Adds.isAssignable (h : c.Adds t key name d) (hsame : t.SameKey c.key key)
    (hname : name ∉ Attribute.reserved) (hrecord : record.HasInt name n) {time : Int}
    (hothers : ∀ entry ∈ (c.stamped time).entries, entry.1 ≠ name →
      entry.2.IsAssignable ∧ entry.2.CanAssign (record.get? entry.1)) :
    ∀ entry ∈ (c.stamped time).entries,
      entry.2.IsAssignable ∧ entry.2.CanAssign (record.get? entry.1) := by
  intro entry hentry
  obtain ⟨a, descriptor⟩ := entry
  by_cases ha : a = name
  · subst ha
    have hget := (c.stamped time).mem_entries_iff.mp hentry
    rw [get?_stamped c time hname] at hget
    cases h with
    | @increments delta _ _ hfield hdelta =>
        obtain rfl := Option.some.inj (hfield.symm.trans hget)
        obtain ⟨v, hv, x, hx, _⟩ := hrecord
        obtain ⟨y, hy, _⟩ := hdelta
        exact ⟨trivial, ⟨v, hv, by rw [hx]; rfl⟩, by rw [hy]; rfl⟩
    | leaves _ hfield => cases hfield.symm.trans hget
    | elsewhere hother => exact absurd hsame hother
  · exact hothers _ hentry ha

end Change

namespace Repository

section Updating

variable {config : Config} {time : Int} {c : Change} {s s' : MemoryStore} {t now : Table}
  {key record : Item} {name : String} {n d : Int} {e : Expressions}

/-- **What an update that is carried out does to the attribute** of the record under a key: it writes
the sum in its digits, or adds nothing and leaves the attribute as it is. -/
theorem number_of_update (hadds : c.Adds t key name d) (hname : name ∉ Attribute.reserved)
    (hnow : s.table config.table = .ok now) (hdefinition : now.definition = t.definition)
    (hget : now.get key = .ok (some record)) (hrecord : record.HasInt name n)
    (hbound : (n + d).natAbs < 2 ^ Binary64.precision) (he : c.expressions time = .ok e)
    (hupdate : s.update ⟨config.table, c.key, e⟩ = .ok s') :
    ∃ after changed, s'.table config.table = .ok after ∧ after.definition = t.definition ∧
      after.get key = .ok (some changed) ∧
      (changed.get? name = some (.ofInt (n + d)) ∨
        d = 0 ∧ ¬ c.Increments t key name ∧ changed.get? name = record.get? name) := by
  obtain ⟨now', found, changed, hnow', hfound, _, hchanged, _, hwrites⟩ :=
    MemoryStore.update_assigns he (c.isProper_stamped time) hupdate
  obtain rfl := Except.ok.inj (hnow.symm.trans hnow')
  obtain ⟨after, hafter, hkept⟩ := hwrites.definition hnow
  have hkey : ∀ a b, now.SameKey a b ↔ t.SameKey a b := by
    intro a b
    unfold Table.SameKey
    rw [hdefinition]
  have hread : ∀ {found : Option Item}, s'.get config.table key = .ok found →
      after.get key = .ok found := by
    intro found h
    rwa [MemoryStore.get_eq hafter] at h
  by_cases hsame : t.SameKey c.key key
  · have hsameNow : now.SameKey key c.key := ((hkey _ _).mpr hsame).symm
    obtain rfl : found = some record := by
      rw [Table.get_congr hsameNow.symm, hget] at hfound
      exact (Except.ok.inj hfound).symm
    have hvalue : changed.get? name = (c.stamped time).assigned record name := hchanged name
    refine ⟨after, changed, hafter, hkept.trans hdefinition,
      hread (hwrites.get_of_sameKey hnow hsameNow), ?_⟩
    rw [hvalue, Fields.assigned, Change.get?_stamped c time hname]
    cases hadds with
    | increments _ hfield hdelta =>
        obtain ⟨v, hv, hn⟩ := hrecord
        rw [hfield, hv]
        exact .inl (Descriptor.assigned_increment_eq hn hdelta hbound)
    | leaves _ hfield =>
        refine .inr ⟨rfl, ?_, by rw [hfield]⟩
        intro hincrements
        obtain ⟨_, delta, hdelta⟩ := hincrements
        cases hfield.symm.trans hdelta
    | elsewhere hother => exact absurd hsame hother
  · have hother : ¬ now.SameKey key c.key := fun h => hsame ((hkey _ _).mp h.symm)
    have hunchanged : s'.get config.table key = .ok (some record) := by
      rw [hwrites.get_of_not_sameKey hnow hother, MemoryStore.get_eq hnow, hget]
    have hzero : d = 0 := by
      cases hadds with
      | increments hsame' => exact absurd hsame' hsame
      | leaves => rfl
      | elsewhere => rfl
    exact ⟨after, record, hafter, hkept.trans hdefinition, hread hunchanged,
      .inr ⟨hzero, fun h => hsame h.1, rfl⟩⟩

/-- A change without a guard is carried out on a record whose attribute it adds to, if it can assign
its other fields and leaves the key alone. -/
theorem submit_of_adds (hadds : c.Adds t key name d) (hname : name ∉ Attribute.reserved)
    (hs : s.Reachable) (hnow : s.table config.table = .ok now)
    (hdefinition : now.definition = t.definition) (hget : now.get key = .ok (some record))
    (hrecord : record.HasInt name n) (hsame : t.SameKey c.key key) (hguard : c.guard = none)
    (hothers : ∀ entry ∈ (c.stamped time).entries, entry.1 ≠ name →
      entry.2.IsAssignable ∧ entry.2.CanAssign (record.get? entry.1))
    (hkey : ∀ a ∈ t.definition.key.attributes, (c.stamped time).get? a = none) :
    ∃ s', ((inMemory config).submit time c).run s = (.ok (), s') := by
  have hfound : now.get c.key = .ok (some record) := by
    have hsameNow : now.SameKey c.key key := by
      unfold Table.SameKey
      rw [hdefinition]
      exact hsame
    rw [Table.get_congr hsameNow, hget]
  have hempty : ∀ entry ∈ (c.guard.getD .empty).entries, False := by
    rw [hguard]
    intro entry hentry
    cases hentry
  obtain ⟨e, s', _, he, hupdate, _⟩ := exists_update_of_change hs
    (fun entry hentry => (hempty entry hentry).elim) hnow hfound
    (fun entry hentry => (hempty entry hentry).elim) (hadds.isAssignable hsame hname hrecord hothers)
    (by rw [hdefinition]; exact hkey)
  exact ⟨s', by rw [run_submit he, MemoryStore.run_store_update_ok hupdate]⟩

end Updating

variable {ι : Type}

/-- The attribute of the record under a key is the number that it was to begin with and the sum of
what some attempts have added; and it is written in its digits if it was so to begin with, or if one of
them has counted it. -/
structure Summed (config : Config) (t : Table) (key : Item) (name : String) (first : Int)
    (attempts : ι → Attempt) (amount : ι → Int) (plain : Prop) (s : MemoryStore)
    (writers : Finset ι) : Prop where
  reachable : s.Reachable
  stored : ∃ now record, s.table config.table = .ok now ∧ now.definition = t.definition ∧
    now.get key = .ok (some record) ∧ record.HasInt name (first + ∑ i ∈ writers, amount i) ∧
    ((plain ∨ ∃ i ∈ writers, (attempts i).change.Increments t key name) →
      record.get? name = some (.ofInt (first + ∑ i ∈ writers, amount i)))

namespace Summed

variable {config : Config} {t : Table} {key : Item} {name : String} {first : Int}
  {attempts : ι → Attempt} {amount : ι → Int} {plain : Prop} {s : MemoryStore} {writers : Finset ι}

variable [DecidableEq ι]

/-- An update that is carried out is added to the sum. -/
theorem update (h : Summed config t key name first attempts amount plain s writers)
    (hadds : ∀ i, (attempts i).change.Adds t key name (amount i)) (hname : name ∉ Attribute.reserved)
    {i : ι} (hnew : i ∉ writers)
    (hbound : |first + ∑ j ∈ insert i writers, amount j| < 2 ^ Binary64.precision) {e : Expressions}
    {s' : MemoryStore} (he : (attempts i).change.expressions (attempts i).now = .ok e)
    (hupdate : s.update ⟨config.table, (attempts i).change.key, e⟩ = .ok s') :
    Summed config t key name first attempts amount plain s' (insert i writers) := by
  obtain ⟨now, record, hnow, hdefinition, hget, hrecord, hplain⟩ := h.stored
  have hsum : first + ∑ j ∈ insert i writers, amount j =
      first + ∑ j ∈ writers, amount j + amount i := by
    rw [Finset.sum_insert hnew]
    omega
  refine ⟨h.reachable.update hupdate, ?_⟩
  rw [hsum] at hbound ⊢
  generalize first + ∑ j ∈ writers, amount j = n at *
  have hnat : (n + amount i).natAbs < 2 ^ Binary64.precision := by
    obtain ⟨hlow, hhigh⟩ := abs_lt.mp hbound
    unfold Binary64.precision at *
    omega
  obtain ⟨after, changed, hafter, hkept, hread, hwritten | ⟨hzero, hnot, hsame⟩⟩ :=
    number_of_update (hadds i) hname hnow hdefinition hget hrecord hnat he hupdate
  · have hint : (Value.ofInt (n + amount i)).IsInt (n + amount i) :=
      Value.isInt_ofInt (Nat.le_of_lt hnat)
    exact ⟨after, changed, hafter, hkept, hread, ⟨_, hwritten, hint⟩, fun _ => hwritten⟩
  · rw [hzero, Int.add_zero]
    refine ⟨after, changed, hafter, hkept, hread, ?_, ?_⟩
    · obtain ⟨v, hv, hn⟩ := hrecord
      exact ⟨v, hsame.trans hv, hn⟩
    · intro hreason
      rw [hsame]
      refine hplain (hreason.imp_right ?_)
      intro hsome
      obtain ⟨j, hj, hincrements⟩ := hsome
      rcases Finset.mem_insert.mp hj with hji | hold
      · subst hji
        exact absurd hincrements hnot
      · exact ⟨j, hold, hincrements⟩

/-- **One turn**, whoever's it is, keeps the sum. -/
theorem advance [Fintype ι] {clients : Clients MemoryStore ι}
    (h : Summed config t key name first attempts amount plain clients.store clients.writers)
    (hadds : ∀ i, (attempts i).change.Adds t key name (amount i)) (hname : name ∉ Attribute.reserved)
    (i : ι) :
    let next := (inMemory config).advance attempts clients i
    |first + ∑ j ∈ next.writers, amount j| < 2 ^ Binary64.precision →
      Summed config t key name first attempts amount plain next.store next.writers := by
  intro next
  have hturn : Turn config attempts clients i next := turn config attempts clients i
  generalize next = next at hturn
  cases hturn with
  | refuses hwaiting fault =>
      intro _
      rw [Clients.writers_goOn (by rw [hwaiting]; rfl)]
      exact h
  | applies hwaiting he hupdate =>
      have hnew : i ∉ clients.writers := by
        rw [Clients.mem_writers, hwaiting]
        exact Bool.false_ne_true
      rw [Clients.writers_goOn_applied]
      intro hbound
      exact h.update hadds hname hnew hbound he hupdate
  | answers happlied =>
      intro _
      rw [Clients.writers_goOn (by rw [happlied]; rfl)]
      exact h
  | rests hended => exact fun _ => h

/-- A schedule keeps the sum, if every number that it reaches is below 2^53 in magnitude. -/
theorem serve [Fintype ι] {clients : Clients MemoryStore ι}
    (h : Summed config t key name first attempts amount plain clients.store clients.writers)
    (hadds : ∀ i, (attempts i).change.Adds t key name (amount i)) (hname : name ∉ Attribute.reserved)
    (schedule : List ι)
    (hbound : ∀ turns, turns <+: schedule →
      |first + ∑ i ∈ ((inMemory config).serve attempts turns clients).writers, amount i| <
        2 ^ Binary64.precision) :
    let after := (inMemory config).serve attempts schedule clients
    Summed config t key name first attempts amount plain after.store after.writers := by
  induction schedule using List.reverseRecOn with
  | nil => exact h
  | append_singleton turns i ih =>
      have hprefix : turns <+: turns ++ [i] := List.prefix_append turns [i]
      have hturns := ih fun earlier hearlier => hbound earlier (hearlier.trans hprefix)
      have hlast := hbound (turns ++ [i]) List.prefix_rfl
      simp only [Repository.serve, List.foldl_append, List.foldl_cons, List.foldl_nil] at hturns hlast ⊢
      exact hturns.advance hadds hname i hlast

end Summed

/-- **No count is lost or rounded.**  Whatever the schedule, if every number that it reaches is below
2^53 in magnitude, the attribute is the number that it was to begin with and the sum of what the
updates that were carried out have added; it is written in its digits, if it was so to begin with or
one of these updates has counted it.  From there on, an attempt on this record without a guard is
carried out, if it can assign its other fields and leaves the key alone. -/
theorem sums_of_serve [Fintype ι] [DecidableEq ι] {config : Config} {s : MemoryStore} {t : Table}
    {key record : Item} {name : String} {first : Int} {attempts : ι → Attempt} {amount : ι → Int}
    (hs : s.Reachable) (ht : s.table config.table = .ok t) (hget : t.get key = .ok (some record))
    (hrecord : record.HasInt name first) (hname : name ∉ Attribute.reserved)
    (hadds : ∀ i, (attempts i).change.Adds t key name (amount i)) (schedule : List ι)
    (hbound : ∀ turns, turns <+: schedule →
      |first + ∑ i ∈ ((inMemory config).serve attempts turns (.begin s)).writers, amount i| <
        2 ^ Binary64.precision) :
    let clients := (inMemory config).serve attempts schedule (.begin s)
    let total := first + ∑ i ∈ clients.writers, amount i
    ∃ now, clients.store.get config.table key = .ok (some now) ∧ now.HasInt name total ∧
      ((record.get? name = some (.ofInt first) ∨
        ∃ i ∈ clients.writers, (attempts i).change.Increments t key name) →
        now.get? name = some (.ofInt total)) ∧
      ∀ i, clients.progress i = .waiting → t.SameKey (attempts i).change.key key →
        (attempts i).change.guard = none →
        (∀ entry ∈ ((attempts i).change.stamped (attempts i).now).entries, entry.1 ≠ name →
          entry.2.IsAssignable ∧ entry.2.CanAssign (now.get? entry.1)) →
        (∀ a ∈ t.definition.key.attributes,
          ((attempts i).change.stamped (attempts i).now).get? a = none) →
        ∃ s', (inMemory config).advance attempts clients i = clients.goOn i .applied s' := by
  intro clients total
  have hbegin : Summed config t key name first attempts amount
      (record.get? name = some (.ofInt first)) (Clients.begin s : Clients MemoryStore ι).store
      (Clients.begin s : Clients MemoryStore ι).writers := by
    rw [Clients.writers_begin]
    refine ⟨hs, t, record, ht, rfl, hget, ?_⟩
    simpa using hrecord
  have hsummed := hbegin.serve hadds hname schedule hbound
  obtain ⟨now, found, hnow, hdefinition, hfound, hnumber, hplain⟩ := hsummed.stored
  refine ⟨found, by rw [MemoryStore.get_eq hnow, hfound], hnumber, hplain, ?_⟩
  intro i hwaiting hsame hguard hothers hkey
  obtain ⟨s', hrun⟩ := submit_of_adds (hadds i) hname hsummed.reachable hnow hdefinition hfound hnumber
    hsame hguard hothers hkey
  exact ⟨s', by rw [advance_waiting hwaiting, hrun]⟩

/-- Two clients count the version of that record, and a third one sets another field of it. -/
def countAndNote : Fin 3 → Attempt
  | 0 => ⟨0, (Change.ofKey (Item.ofRootKey "order#1")).increment "version" (.ofInt 2)⟩
  | 1 => ⟨1, (Change.ofKey (Item.ofRootKey "order#1")).increment "version" (.ofInt (-3))⟩
  | 2 => ⟨2, (Change.ofKey (Item.ofRootKey "order#1")).set "note" (.string "late")⟩

/-- What they add to the version. -/
def countsOf : Fin 3 → Int
  | 0 => 2
  | 1 => -3
  | 2 => 0

theorem adds_countAndNote (t : Table) (i : Fin 3) :
    (countAndNote i).change.Adds t (Item.ofRootKey "order#1") "version" (countsOf i) := by
  match i with
  | 0 => exact .increments (.refl t _) rfl (Value.isInt_ofInt (by decide))
  | 1 => exact .increments (.refl t _) rfl (Value.isInt_ofInt (by decide))
  | 2 => exact .leaves (.refl t _) rfl

/-- The version goes below zero on the way, and comes to zero. -/
theorem sums_of_serve_countAndNote :
    let clients := (inMemory { table := "users" }).serve countAndNote [1, 2, 0] (.begin orders)
    clients.writers = {0, 1, 2} ∧
      ∃ now, clients.store.get "users" (Item.ofRootKey "order#1") = .ok (some now) ∧
        now.get? "version" = some (.number "0") := by
  intro clients
  have hs : orders.Reachable :=
    (MemoryStore.Reachable.empty.createTable _).run_put "users" firstOrder
  obtain ⟨t, ht, _, hget⟩ := exists_table_orders
  have hfirst : firstOrder.HasInt "version" 1 :=
    ⟨_, by decide +kernel, Value.isInt_ofInt (by decide)⟩
  have hbound : ∀ writers : Finset (Fin 3),
      |1 + ∑ i ∈ writers, countsOf i| < 2 ^ Binary64.precision := by
    decide
  have hserve := @sums_of_serve (Fin 3) _ _ { table := "users" } _ _ _ _ _ _ _ _ hs ht hget hfirst
    (by decide) (adds_countAndNote t) [1, 2, 0] fun _ _ => hbound _
  have hwriters : clients.writers = {0, 1, 2} := by decide +kernel
  obtain ⟨now, hnow, _, hcanonical, _⟩ := hserve
  refine ⟨hwriters, now, hnow, ?_⟩
  have hversion := hcanonical (.inl (by decide +kernel))
  rw [hversion, hwriters]
  rfl

end Repository

end RecordStore
