import Mathlib.Algebra.Order.Group.Int
import Mathlib.Algebra.Order.Group.Unbundled.Int
import RecordStore.Proofs.Number.Whole
import RecordStore.Proofs.Repository.Clients
import RecordStore.Proofs.Repository.Timestamps

/-!
# Versions of a record

Clients that count an attribute of a record up with every change, and let a change take place only if
the attribute is the number that they have seen, do not overwrite each other: of the attempts that have
seen the same version, one takes place.

Each update reads the version that its guard is tried on, and writes the next one, in a single step of
the store.  So the version is how often the record was changed (`Counted`), and a guard that was met
once is below it from then on.

* `Change.Bumps` — a change of this form;
* `Repository.Counted.advance` — one turn, whoever's it is;
* `Repository.versions_of_serve` — every schedule.
-/

namespace RecordStore

/-- A record has a whole number as an attribute. -/
def Item.HasInt (item : Item) (name : String) (i : Int) : Prop :=
  ∃ v, item.get? name = some v ∧ v.IsInt i

/-- Sums of whole numbers are exact up to 2^53. -/
theorem Descriptor.exists_assigned_increment {v delta : Value} {i j : Int} (hv : v.IsInt i)
    (hdelta : delta.IsInt j) (hlow : -(2 ^ Binary64.precision) < i + j)
    (hhigh : i + j ≤ 2 ^ Binary64.precision) :
    ∃ w, (Descriptor.increment delta).assigned (some v) = some w ∧ w.IsInt (i + j) := by
  obtain ⟨x, y, hx, hy, hsum⟩ := Value.exists_add hv hdelta hlow hhigh
  exact ⟨_, by simp [assigned, hx, hy], hsum⟩

/-- A guard on one field, that it is a whole number. -/
theorem Fields.hold_ofList_iff {item : Item} {name : String} {n i : Int} {w : Value}
    (hitem : item.HasInt name n) (hw : w.IsInt i) :
    Fields.Hold (.ofList [(name, .equals w)]) item ↔ n = i := by
  obtain ⟨v, hv, hn⟩ := hitem
  have hentries : (OrderedDict.ofList [(name, Descriptor.equals w)]).entries = [(name, .equals w)] := rfl
  rw [← Value.same_iff_of_isInt hn hw, Hold, hentries]
  simp [hv, Descriptor.Admits]

namespace Change

variable {c : Change} {now : Int} {name : String} {i n : Int}

/-- What a change says of an attribute that is not reserved. -/
theorem get?_stamped (c : Change) (now : Int) (h : name ∉ Attribute.reserved) :
    (c.stamped now).get? name = c.fields.get? name := by
  have hname : name ≠ Attribute.updatedAt := fun heq => h (by simp [heq, Attribute.reserved])
  rw [stamped, OrderedDict.get?_insert, if_neg hname, Fields.get?_withoutReserved, if_neg h]

/-- A change counts a field up and sets other fields, provided that the field is a certain number. -/
structure Bumps (c : Change) (name : String) (i : Int) : Prop where
  increments : ∃ delta, c.fields.get? name = some (.increment delta) ∧ delta.IsInt 1
  sets : ∀ other d, other ≠ name → c.fields.get? other = some d → ∃ v, d = .equals v
  guards : ∃ w, c.guard = some (.ofList [(name, .equals w)]) ∧ w.IsInt i

namespace Bumps

variable {d : Descriptor} {a : String} {record : Item}

/-- What a stamped change of this form says of an attribute: it counts it up, or sets it. -/
theorem stamped_cases (h : c.Bumps name i) (hname : name ∉ Attribute.reserved)
    (ha : (c.stamped now).get? a = some d) :
    (a = name ∧ ∃ delta, d = .increment delta ∧ delta.IsInt 1) ∨ ∃ v, d = .equals v := by
  by_cases hname' : a = name
  · subst hname'
    obtain ⟨delta, hfield, hdelta⟩ := h.increments
    rw [get?_stamped c now hname, hfield] at ha
    exact .inl ⟨rfl, delta, (Option.some.inj ha).symm, hdelta⟩
  · right
    by_cases hreserved : a ∈ Attribute.reserved
    · rw [stamped, OrderedDict.get?_insert, Fields.get?_withoutReserved, if_pos hreserved] at ha
      split at ha
      · exact ⟨_, (Option.some.inj ha).symm⟩
      · cases ha
    · rw [get?_stamped c now hreserved] at ha
      exact h.sets a d hname' ha

/-- A change of this form can be carried out on a record whose field is a number. -/
theorem isAssignable (h : c.Bumps name i) (hname : name ∉ Attribute.reserved)
    (hrecord : record.HasInt name n) :
    ∀ entry ∈ (c.stamped now).entries,
      entry.2.IsAssignable ∧ entry.2.CanAssign (record.get? entry.1) := by
  intro entry hentry
  obtain ⟨a, d⟩ := entry
  have hget := (c.stamped now).mem_entries_iff.mp hentry
  rcases h.stamped_cases hname hget with ⟨ha, delta, hd, y, hy, _⟩ | ⟨v, hd⟩
  · subst ha hd
    obtain ⟨v, hv, x, hx, _⟩ := hrecord
    exact ⟨trivial, ⟨v, hv, by rw [hx]; rfl⟩, by rw [hy]; rfl⟩
  · subst hd
    exact ⟨trivial, trivial⟩

theorem isProper_guard (h : c.Bumps name i) : (c.guard.getD .empty).IsProper := by
  obtain ⟨w, hguard, _⟩ := h.guards
  rw [hguard]
  intro entry hentry
  obtain rfl := List.mem_singleton.mp hentry
  trivial

/-- The guard of a change of this form asks whether the field is the number. -/
theorem hold_guard_iff (h : c.Bumps name i) (hrecord : record.HasInt name n) :
    (c.guard.getD .empty).Hold record ↔ n = i := by
  obtain ⟨w, hguard, hw⟩ := h.guards
  rw [hguard]
  exact Fields.hold_ofList_iff hrecord hw

/-- So does what it is compiled to. -/
theorem optionalHolds_guard (h : c.Bumps name i) (hrecord : record.HasInt name n) {e : Expressions}
    (he : c.expressions now = .ok e) :
    Condition.optionalHolds e.context record e.condition = .ok (decide (n = i)) := by
  have hspells := Expressions.spells_forUpdate he (.refl _)
  obtain ⟨holds, hholds, hanswer⟩ := Expressions.decides_of_spells hspells h.isProper_guard record
  rw [h.hold_guard_iff hrecord] at hanswer
  have heq : holds = decide (n = i) := by simp [← hanswer]
  rw [hholds, heq]

/-- A change of this form counts the field up by one. -/
theorem hasInt_of_assigned (h : c.Bumps name i) (hname : name ∉ Attribute.reserved)
    (hrecord : record.HasInt name n) {changed : Item}
    (hchanged : ∀ a, changed.get? a = (c.stamped now).assigned record a)
    (hlow : -(2 ^ Binary64.precision) < n + 1) (hhigh : n + 1 ≤ 2 ^ Binary64.precision) :
    changed.HasInt name (n + 1) := by
  obtain ⟨delta, hfield, hdelta⟩ := h.increments
  obtain ⟨v, hv, hn⟩ := hrecord
  obtain ⟨w, hassigned, hw⟩ := Descriptor.exists_assigned_increment hn hdelta hlow hhigh
  refine ⟨w, ?_, hw⟩
  rw [hchanged, Fields.assigned, get?_stamped c now hname, hfield, hv]
  exact hassigned

end Bumps

end Change

namespace Repository

section Submitting

variable {config : Config} {now : Int} {c : Change} {s : MemoryStore} {t : Table} {record : Item}
  {name : String} {n i : Int}

/-- An attempt that has seen another version fails its guard, and the store stays. -/
theorem submit_of_other_version (now : Int) (h : c.Bumps name i) (hname : name ∉ Attribute.reserved)
    (ht : s.table config.table = .ok t) (hget : t.get c.key = .ok (some record))
    (hrecord : record.HasInt name n) (hne : n ≠ i) :
    ∃ text, ((inMemory config).submit now c).run s = (.error (.conditionFailed text), s) := by
  obtain ⟨assignments, hassignments⟩ := (Expressions.assignments_eq_ok_iff (c.stamped now)).mpr
    fun entry hentry => (h.isAssignable hname hrecord entry hentry).1
  obtain ⟨e, he⟩ := Expressions.exists_forUpdate hassignments c.guard
  have hholds := h.optionalHolds_guard hrecord he
  rw [decide_eq_false hne] at hholds
  have hfails := MemoryStore.update_eq_conditionFailed he (c.isProper_stamped now) ht hget hholds
  exact ⟨_, by rw [run_submit he, MemoryStore.run_store_update_error hfails]⟩

/-- An attempt that has seen the version of the record is carried out, if it leaves the key alone. -/
theorem submit_of_version (now : Int) (h : c.Bumps name n) (hname : name ∉ Attribute.reserved)
    (hs : s.Reachable) (ht : s.table config.table = .ok t) (hget : t.get c.key = .ok (some record))
    (hrecord : record.HasInt name n)
    (hkey : ∀ a ∈ t.definition.key.attributes, (c.stamped now).get? a = none) :
    ∃ s', ((inMemory config).submit now c).run s = (.ok (), s') := by
  obtain ⟨e, s', _, he, hupdate, _⟩ := exists_update_of_change hs h.isProper_guard ht hget
    ((h.hold_guard_iff hrecord).mpr rfl) (h.isAssignable hname hrecord) hkey
  exact ⟨s', by rw [run_submit he, MemoryStore.run_store_update_ok hupdate]⟩

/-- An update that is carried out had seen the version of the record, and writes the next one. -/
theorem version_of_update (h : c.Bumps name i) (hname : name ∉ Attribute.reserved)
    (ht : s.table config.table = .ok t) (hget : t.get c.key = .ok (some record))
    (hrecord : record.HasInt name n) (hn : -(2 ^ Binary64.precision) ≤ n)
    (hi : i < 2 ^ Binary64.precision) {e : Expressions} {s' : MemoryStore}
    (he : c.expressions now = .ok e) (hupdate : s.update ⟨config.table, c.key, e⟩ = .ok s') :
    n = i ∧ ∃ changed, changed.HasInt name (n + 1) ∧
      s.WritesAt s' config.table c.key (some changed) := by
  obtain ⟨t', found, changed, ht', hfound, hholds, hchanged, _, hwrites⟩ :=
    MemoryStore.update_assigns he (c.isProper_stamped now) hupdate
  obtain rfl := Except.ok.inj (ht.symm.trans ht')
  obtain rfl := Except.ok.inj (hget.symm.trans hfound)
  have hversion : n = i := by
    have hanswer := hholds.symm.trans (h.optionalHolds_guard hrecord he)
    exact of_decide_eq_true (Except.ok.inj hanswer).symm
  refine ⟨hversion, changed, ?_, hwrites⟩
  exact h.hasInt_of_assigned hname hrecord hchanged (by omega) (by omega)

end Submitting

variable {ι : Type}

/-- Attempts on the record under one key, each of them guarded by the version that its client has
seen. -/
structure Contend (attempts : ι → Attempt) (t : Table) (key : Item) (name : String)
    (seen : ι → Int) : Prop where
  sameKey : ∀ i, t.SameKey (attempts i).change.key key
  bumps : ∀ i, (attempts i).change.Bumps name (seen i)
  bounded : ∀ i, |seen i| < 2 ^ Binary64.precision

/-- The version of the record under a key is how often some attempts have counted it up, after the
number that it was to begin with: no two of them had seen the same one, and all that they had seen are
below it. -/
structure Counted (config : Config) (t : Table) (key : Item) (name : String) (first : Int)
    (seen : ι → Int) (s : MemoryStore) (writers : Finset ι) : Prop where
  reachable : s.Reachable
  stored : ∃ now record, s.table config.table = .ok now ∧ now.definition = t.definition ∧
    now.get key = .ok (some record) ∧ record.HasInt name (first + writers.card)
  bounded : -(2 ^ Binary64.precision) ≤ first ∧ first + writers.card ≤ 2 ^ Binary64.precision
  below : ∀ i ∈ writers, seen i < first + writers.card
  distinct : Set.InjOn seen writers

namespace Counted

variable {config : Config} {t : Table} {key : Item} {name : String} {first : Int}
  {attempts : ι → Attempt} {seen : ι → Int} {s : MemoryStore} {writers : Finset ι}

/-- In the beginning nothing is counted. -/
theorem begin (hs : s.Reachable) (ht : s.table config.table = .ok t) {record : Item}
    (hget : t.get key = .ok (some record)) (hrecord : record.HasInt name first)
    (hfirst : |first| < 2 ^ Binary64.precision) : Counted config t key name first seen s ∅ := by
  have hzero : first + ((∅ : Finset ι).card : Int) = first := by simp
  obtain ⟨hlow, hhigh⟩ := abs_lt.mp hfirst
  refine ⟨hs, ⟨t, record, ht, rfl, hget, by rw [hzero]; exact hrecord⟩, ?_, by simp, by simp⟩
  rw [hzero]
  exact ⟨Int.le_of_lt hlow, Int.le_of_lt hhigh⟩

/-- Every attempt finds the record. -/
theorem exists_record (h : Counted config t key name first seen s writers)
    (hattempts : Contend attempts t key name seen) (i : ι) :
    ∃ now record, s.table config.table = .ok now ∧ now.definition = t.definition ∧
      now.SameKey key (attempts i).change.key ∧
      now.get (attempts i).change.key = .ok (some record) ∧
      record.HasInt name (first + writers.card) := by
  obtain ⟨now, record, hnow, hdefinition, hget, hrecord⟩ := h.stored
  have hsame : now.SameKey (attempts i).change.key key := by
    unfold Table.SameKey
    rw [hdefinition]
    exact hattempts.sameKey i
  exact ⟨now, record, hnow, hdefinition, hsame.symm, by rw [Table.get_congr hsame, hget], hrecord⟩

variable [DecidableEq ι]

/-- An update that is carried out is counted, and none of those before had seen the same version. -/
theorem update (h : Counted config t key name first seen s writers)
    (hattempts : Contend attempts t key name seen) (hname : name ∉ Attribute.reserved) {i : ι}
    {e : Expressions} {s' : MemoryStore}
    (he : (attempts i).change.expressions (attempts i).now = .ok e)
    (hupdate : s.update ⟨config.table, (attempts i).change.key, e⟩ = .ok s') :
    Counted config t key name first seen s' (insert i writers) := by
  obtain ⟨now, record, hnow, hdefinition, hsame, hget, hrecord⟩ := h.exists_record hattempts i
  obtain ⟨hlow, hhigh⟩ := h.bounded
  obtain ⟨_, hseen⟩ := abs_lt.mp (hattempts.bounded i)
  obtain ⟨hversion, changed, hchanged, hwrites⟩ := version_of_update (hattempts.bumps i) hname hnow
    hget hrecord (by omega) (by omega) he hupdate
  have hnew : i ∉ writers := fun hmem => absurd (h.below i hmem) (by omega)
  have hcard : ((insert i writers).card : Int) = writers.card + 1 := by
    rw [Finset.card_insert_of_notMem hnew]
    push_cast
    rfl
  refine ⟨h.reachable.update hupdate, ?_, ⟨hlow, by omega⟩, ?_, ?_⟩
  · obtain ⟨after, hafter, hkept⟩ := hwrites.definition hnow
    have hread := hwrites.get_of_sameKey hnow hsame
    rw [MemoryStore.get_eq hafter] at hread
    refine ⟨after, changed, hafter, hkept.trans hdefinition, hread, ?_⟩
    rw [hcard, ← Int.add_assoc]
    exact hchanged
  · intro j hj
    rcases Finset.mem_insert.mp hj with hji | hold
    · subst hji
      omega
    · have hbelow := h.below j hold
      omega
  · rw [Finset.coe_insert, Set.injOn_insert (by exact_mod_cast hnew)]
    refine ⟨h.distinct, ?_⟩
    intro hmem
    obtain ⟨j, hj, heq⟩ := hmem
    have hbelow := h.below j hj
    omega

/-- **One turn**, whoever's it is, keeps the count. -/
theorem advance [Fintype ι] {clients : Clients MemoryStore ι}
    (h : Counted config t key name first seen clients.store clients.writers)
    (hattempts : Contend attempts t key name seen) (hname : name ∉ Attribute.reserved) (i : ι) :
    let next := (inMemory config).advance attempts clients i
    Counted config t key name first seen next.store next.writers := by
  intro next
  have hturn : Turn config attempts clients i next := turn config attempts clients i
  generalize next = next at hturn
  cases hturn with
  | refuses hwaiting fault =>
      rw [Clients.writers_goOn (by rw [hwaiting]; rfl)]
      exact h
  | applies hwaiting he hupdate =>
      rw [Clients.writers_goOn_applied]
      exact h.update hattempts hname he hupdate
  | answers happlied =>
      rw [Clients.writers_goOn (by rw [happlied]; rfl)]
      exact h
  | rests hended => exact h

/-- An attempt that has seen another version fails in its first turn. -/
theorem advance_of_other_version {clients : Clients MemoryStore ι}
    (h : Counted config t key name first seen clients.store writers)
    (hattempts : Contend attempts t key name seen) (hname : name ∉ Attribute.reserved) {i : ι}
    (hwaiting : clients.progress i = .waiting) (hother : seen i ≠ first + writers.card) :
    ∃ text, (inMemory config).advance attempts clients i =
      clients.goOn i (.refused (.conditionFailed text)) clients.store := by
  obtain ⟨now, record, hnow, _, _, hget, hrecord⟩ := h.exists_record hattempts i
  obtain ⟨text, hrun⟩ := submit_of_other_version (attempts i).now (hattempts.bumps i) hname hnow hget
    hrecord (Ne.symm hother)
  exact ⟨text, by rw [advance_waiting hwaiting, hrun]⟩

/-- An attempt that has seen the version is carried out in its first turn, if it leaves the key alone. -/
theorem advance_of_version {clients : Clients MemoryStore ι}
    (h : Counted config t key name first seen clients.store writers)
    (hattempts : Contend attempts t key name seen) (hname : name ∉ Attribute.reserved) {i : ι}
    (hwaiting : clients.progress i = .waiting) (hseen : seen i = first + writers.card)
    (hkey : ∀ a ∈ t.definition.key.attributes,
      ((attempts i).change.stamped (attempts i).now).get? a = none) :
    ∃ s', (inMemory config).advance attempts clients i = clients.goOn i .applied s' := by
  obtain ⟨now, record, hnow, hdefinition, _, hget, hrecord⟩ := h.exists_record hattempts i
  rw [← hseen] at hrecord
  obtain ⟨s', hrun⟩ := submit_of_version (attempts i).now (hattempts.bumps i) hname h.reachable hnow
    hget hrecord (by rw [hdefinition]; exact hkey)
  exact ⟨s', by rw [advance_waiting hwaiting, hrun]⟩

end Counted

/-- **Of the attempts that have seen the same version, one takes place.**  Whatever the schedule, the
version of the record is the number that it was to begin with and how many updates were carried out, and
no two of these had seen the same version.  From there on, an attempt that has seen another version
fails its guard and leaves the store as it was; one that has seen the version of the record is carried
out, if it leaves the attributes of the key alone. -/
theorem versions_of_serve [Fintype ι] [DecidableEq ι] {config : Config} {s : MemoryStore} {t : Table}
    {key record : Item} {name : String} {first : Int} {attempts : ι → Attempt} {seen : ι → Int}
    (hs : s.Reachable) (ht : s.table config.table = .ok t) (hget : t.get key = .ok (some record))
    (hrecord : record.HasInt name first) (hfirst : |first| < 2 ^ Binary64.precision)
    (hname : name ∉ Attribute.reserved) (hattempts : Contend attempts t key name seen)
    (schedule : List ι) :
    let clients := (inMemory config).serve attempts schedule (.begin s)
    let version := first + clients.writers.card
    (∃ now, clients.store.get config.table key = .ok (some now) ∧ now.HasInt name version) ∧
      (∀ i ∈ clients.writers, ∀ j ∈ clients.writers, seen i = seen j → i = j) ∧
      ∀ i, clients.progress i = .waiting →
        (seen i ≠ version → ∃ text, (inMemory config).advance attempts clients i =
          clients.goOn i (.refused (.conditionFailed text)) clients.store) ∧
        (seen i = version →
          (∀ a ∈ t.definition.key.attributes,
            ((attempts i).change.stamped (attempts i).now).get? a = none) →
          ∃ s', (inMemory config).advance attempts clients i = clients.goOn i .applied s') := by
  intro clients version
  have hbegin : Counted config t key name first seen (Clients.begin s : Clients MemoryStore ι).store
      (Clients.begin s : Clients MemoryStore ι).writers := by
    rw [Clients.writers_begin]
    exact .begin hs ht hget hrecord hfirst
  have hcounted : Counted config t key name first seen clients.store clients.writers :=
    serve_preserves
      (P := fun clients => Counted config t key name first seen clients.store clients.writers)
      (fun _ i h => h.advance hattempts hname i) schedule hbegin
  refine ⟨?_, ?_, ?_⟩
  · obtain ⟨now, record, hnow, _, hget, hrecord⟩ := hcounted.stored
    exact ⟨record, by rw [MemoryStore.get_eq hnow, hget], hrecord⟩
  · intro i hi j hj heq
    exact hcounted.distinct hi hj heq
  · intro i hwaiting
    exact ⟨hcounted.advance_of_other_version hattempts hname hwaiting,
      hcounted.advance_of_version hattempts hname hwaiting⟩

/-- A record in its first version. -/
def firstOrder : Item := (Item.ofRootKey "order#1").insert "version" (.ofInt 1)

/-- The table with that record in it. -/
def orders : MemoryStore := ((MemoryStore.store.put "users" firstOrder).run emptyTable).2

/-- Counts the version of that record up, provided that it is the first. -/
def bump : Change :=
  ((Change.ofKey (Item.ofRootKey "order#1")).increment "version" (.ofInt 1)).guarded
    (.ofList [("version", .equals (.ofInt 1))])

/-- Two clients have seen the first version. -/
def bumpTwice : Fin 2 → Attempt := fun i => ⟨i, bump⟩

theorem exists_table_orders : ∃ t, orders.table "users" = .ok t ∧
    t.definition.key = ⟨Attribute.source, some Attribute.target⟩ ∧
    t.get (Item.ofRootKey "order#1") = .ok (some firstOrder) := by
  have hget : orders.get "users" (Item.ofRootKey "order#1") = .ok (some firstOrder) := by
    decide +kernel
  have hkey : (orders.table "users").map (fun t => t.definition.key) =
      .ok ⟨Attribute.source, some Attribute.target⟩ := by
    decide +kernel
  cases ht : orders.table "users" with
  | error fault =>
      rw [ht] at hkey
      cases hkey
  | ok t =>
      rw [ht] at hkey
      exact ⟨t, rfl, Except.ok.inj hkey, (MemoryStore.get_eq ht _).symm.trans hget⟩

theorem contend_bumpTwice (t : Table) :
    Contend bumpTwice t (Item.ofRootKey "order#1") "version" fun _ => 1 := by
  have hone : (Value.ofInt 1).IsInt 1 := Value.isInt_ofInt (by decide)
  refine ⟨fun i => .refl t _, fun i => ⟨⟨_, rfl, hone⟩, ?_, ⟨_, rfl, hone⟩⟩, fun i => by decide⟩
  intro other d hother hd
  have hnone : bump.fields.get? other = none := by
    change (OrderedDict.empty.insert "version" (Descriptor.increment (.ofInt 1))).get? other = none
    simp [hother]
  cases hnone.symm.trans hd

/-- The second client comes before the first one has read its record, and fails. -/
theorem versions_of_serve_bumpTwice :
    let clients := (inMemory { table := "users" }).serve bumpTwice [0, 1] (.begin orders)
    clients.writers = {0} ∧
      (∃ now, clients.store.get "users" (Item.ofRootKey "order#1") = .ok (some now) ∧
        now.HasInt "version" 2) ∧
      ∃ text, clients.progress 1 = .refused (.conditionFailed text) := by
  have hs : orders.Reachable :=
    (MemoryStore.Reachable.empty.createTable _).run_put "users" firstOrder
  obtain ⟨t, ht, hkey, hget⟩ := exists_table_orders
  have hfirst : firstOrder.HasInt "version" 1 :=
    ⟨_, by decide +kernel, Value.isInt_ofInt (by decide)⟩
  have hserve := @versions_of_serve (Fin 2) _ _ { table := "users" } _ _ _ _ _ _ _ _ hs ht hget hfirst
    (by decide) (by decide) (contend_bumpTwice t)
  obtain ⟨s', hwins⟩ : ∃ s', (inMemory { table := "users" }).advance bumpTwice (.begin orders) 0 =
      (Clients.begin orders).goOn 0 .applied s' := by
    refine ((hserve []).2.2 0 rfl).2 ?_ ?_
    · change 1 = 1 + ((Clients.begin orders : Clients MemoryStore (Fin 2)).writers.card : Int)
      rw [Clients.writers_begin]
      rfl
    · rw [hkey]
      decide +kernel
  have hwriters : ((Clients.begin orders : Clients MemoryStore (Fin 2)).goOn 0 .applied s').writers =
      {0} := by
    rw [Clients.writers_goOn_applied, Clients.writers_begin]
    rfl
  obtain ⟨text, hfails⟩ : ∃ text, (inMemory { table := "users" }).serve bumpTwice [0, 1]
      (.begin orders) =
        ((Clients.begin orders).goOn 0 .applied s').goOn 1 (.refused (.conditionFailed text)) s' := by
    have hnext := (hserve [0]).2.2 1
    simp only [serve, List.foldl_cons, List.foldl_nil, hwins, hwriters] at hnext ⊢
    exact (hnext rfl).1 (by decide)
  have hkept : ((inMemory { table := "users" }).serve bumpTwice [0, 1] (.begin orders)).writers =
      {0} := by
    rw [hfails, Clients.writers_goOn (by rfl), hwriters]
  have hversion := (hserve [0, 1]).1
  rw [hkept] at hversion
  exact ⟨hkept, hversion, text, by rw [hfails]; rfl⟩

end Repository

end RecordStore
