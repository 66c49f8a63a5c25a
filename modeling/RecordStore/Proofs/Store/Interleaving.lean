import Mathlib.Data.List.Nodup
import Mathlib.Logic.Relation
import RecordStore.Proofs.Store.AllPages
import RecordStore.Proofs.Store.Writing

/-!
# Reads with writes between their pages

A client follows the cursors of a read while other clients put, change and remove records.  Each page
shows the store as it is when the page is fetched, so the pages need not belong to any one store.  Still
they are in order all together, and what no write touches is on exactly one of them.

What carries this is that a cursor is a place in the order and not a record: the next page begins right
behind it, whether or not its record is still there.

* `Read` — a query or a scan; `Read.fetch_eq` says what a fetch that succeeds gives;
* `Followed` — the fetches of a read up to the page without a cursor, with writes between them;
* `Followed.inOrder`, `Followed.complete` — what all pages together give, by induction on the fetches;
* `steady_under_writes` — any query or scan, from any store that can be reached.
-/

namespace RecordStore

/-- Whether a record passes the condition in a slot of a request; one on which it fails does not. -/
def Expressions.passes (e : Expressions) (slot : Option String) (item : Item) : Bool :=
  match Condition.optionalHolds e.context item slot with
  | .ok holds => holds
  | .error _ => false

theorem Expressions.passes_iff {e : Expressions} {slot : Option String} {item : Item} :
    e.passes slot item = true ↔ Condition.optionalHolds e.context item slot = .ok true := by
  rw [passes]
  cases Condition.optionalHolds e.context item slot <;> simp

/-- A query or a scan. -/
inductive Read where
  | query (request : QueryRequest)
  | scan (request : ScanRequest)

namespace Read

def table : Read → String
  | query r => r.table
  | scan r => r.table

def index : Read → Option String
  | query r => r.index
  | scan r => r.index

def expressions : Read → Expressions
  | query r => r.expressions
  | scan r => r.expressions

/-- The key condition; a scan has none, whatever the request says. -/
def keyCondition : Read → Option String
  | query r => r.expressions.keyCondition
  | scan _ => none

def limit : Read → Option Nat
  | query r => r.limit
  | scan r => r.limit

/-- The direction; a scan always goes forward. -/
def forward : Read → Bool
  | query r => r.forward
  | scan _ => true

def start : Read → Option Cursor
  | query r => r.start
  | scan r => r.start

/-- One page, from a cursor on. -/
def fetch : Read → MemoryStore → Option Cursor → Except Error (Page Item)
  | query r, s, start => s.query (r.resume start)
  | scan r, s, start => s.scan (r.resume start)

/-- A record matches the key condition and passes the filter. -/
def Matches (r : Read) (item : Item) : Prop :=
  Condition.optionalHolds r.expressions.context item r.keyCondition = .ok true ∧
    Condition.optionalHolds r.expressions.context item r.expressions.filter = .ok true

end Read

/-- Tests that succeed keep what passes them. -/
theorem filter_of_keepWhere {ε α : Type} {test : α → Except ε Bool} {p : α → Bool}
    (hp : ∀ x b, test x = .ok b → p x = b) {xs ys : List α} (h : keepWhere test xs = .ok ys) :
    ys = xs.filter p := by
  induction xs generalizing ys with
  | nil => exact (Except.ok.inj h).symm
  | cons x rest ih =>
      rw [keepWhere] at h
      cases htest : test x with
      | error fault => simp [htest, bind, Except.bind] at h
      | ok b =>
          cases hrest : keepWhere test rest with
          | error fault => simp [htest, hrest, bind, Except.bind] at h
          | ok more =>
              rw [htest, hrest] at h
              obtain rfl := Except.ok.inj h
              rw [List.filter_cons, hp x b htest, ih hrest]

namespace MemoryStore

/-- A test that succeeds gives what the condition in its slot gives. -/
theorem optionalHolds_of_tests {e : Expressions} {slot : Option String} {c : Option Condition}
    (hc : conditionOf? slot = .ok c) {item : Item} {b : Bool}
    (h : Table.tests e.context c item = .ok b) :
    Condition.optionalHolds e.context item slot = .ok b := by
  rw [Table.tests_of_conditionOf? hc] at h
  cases hholds : Condition.optionalHolds e.context item slot with
  | error fault =>
      rw [hholds] at h
      cases h
  | ok holds =>
      rw [hholds] at h
      exact congrArg Except.ok (Except.ok.inj h)

/-- A condition that can be read passes what it holds of. -/
theorem passes_of_tests {e : Expressions} {slot : Option String} {c : Option Condition}
    (hc : conditionOf? slot = .ok c) (item : Item) (b : Bool)
    (h : Table.tests e.context c item = .ok b) : e.passes slot item = b := by
  rw [Expressions.passes, optionalHolds_of_tests hc h]

end MemoryStore

section ReadBy

variable {sort : List String → List Item → Except Error (List Item)} {page : Page Item}

/-- A read of a table that succeeds goes along the records as its sort has them. -/
theorem Table.readBy_eq_ok {t : Table} {pageSize : Option Nat} {plan : ReadPlan}
    {key keep : Item → Bool}
    (hkey : ∀ item b, Table.tests plan.context plan.keyCondition item = .ok b → key item = b)
    (hkeep : ∀ item b, Table.tests plan.context plan.filter item = .ok b → keep item = b)
    (h : t.readBy sort pageSize plan = .ok page) :
    ∃ ordering along, t.definition.ordering plan.index = .ok ordering ∧
      t.inOrderBy sort ordering plan.forward = .ok along ∧
      page = Table.pageOf ordering (tighter plan.limit pageSize) keep
        ((along.filter key).filter (Table.isBeyond ordering plan.forward plan.start)) := by
  obtain ⟨ordering, hordering, h⟩ := Condition.bind_eq_ok h
  obtain ⟨along, halong, h⟩ := Condition.bind_eq_ok h
  obtain ⟨matching, hmatching, h⟩ := Condition.bind_eq_ok h
  obtain ⟨items, hitems, h⟩ := Condition.bind_eq_ok h
  obtain rfl := filter_of_keepWhere hkey hmatching
  obtain rfl := filter_of_keepWhere hkeep hitems
  exact ⟨ordering, along, hordering, halong, (Except.ok.inj h).symm⟩

/-- A query that succeeds reads its conditions and then a table. -/
theorem MemoryStore.queryBy_eq_ok {s : MemoryStore} {r : QueryRequest}
    (h : s.queryBy sort r = .ok page) :
    ∃ t c d, s.table r.table = .ok t ∧ conditionOf? r.expressions.keyCondition = .ok c ∧
      conditionOf? r.expressions.filter = .ok d ∧
      t.readBy sort s.pageSize ⟨r.index, r.expressions.context, c, d, r.limit, r.forward, r.start⟩ =
        .ok page := by
  rw [queryBy] at h
  cases hslot : r.expressions.keyCondition with
  | none => simp [hslot] at h
  | some text =>
      simp only [hslot] at h
      obtain ⟨c, hc, h⟩ := Condition.bind_eq_ok h
      obtain ⟨d, hd, h⟩ := Condition.bind_eq_ok h
      obtain ⟨t, ht, h⟩ := Condition.bind_eq_ok h
      exact ⟨t, c, d, ht, hc, hd, h⟩

/-- A scan that succeeds reads its filter and then a table. -/
theorem MemoryStore.scanBy_eq_ok {s : MemoryStore} {r : ScanRequest}
    (h : s.scanBy sort r = .ok page) :
    ∃ t d, s.table r.table = .ok t ∧ conditionOf? r.expressions.filter = .ok d ∧
      t.readBy sort s.pageSize ⟨r.index, r.expressions.context, none, d, r.limit, true, r.start⟩ =
        .ok page := by
  obtain ⟨d, hd, h⟩ := Condition.bind_eq_ok h
  obtain ⟨t, ht, h⟩ := Condition.bind_eq_ok h
  exact ⟨t, d, ht, hd, h⟩

end ReadBy

/-- A fetch that succeeds reads its conditions and then a table. -/
theorem Read.exists_read {r : Read} {s : MemoryStore} {start : Option Cursor} {page : Page Item}
    (h : r.fetch s start = .ok page) :
    ∃ t c d, s.table r.table = .ok t ∧ MemoryStore.conditionOf? r.keyCondition = .ok c ∧
      MemoryStore.conditionOf? r.expressions.filter = .ok d ∧
      t.read s.pageSize ⟨r.index, r.expressions.context, c, d, r.limit, r.forward, start⟩ =
        .ok page := by
  cases r with
  | query r => exact MemoryStore.queryBy_eq_ok (r := r.resume start) h
  | scan r =>
      obtain ⟨t, d, ht, hd, h⟩ := MemoryStore.scanBy_eq_ok (r := r.resume start) h
      exact ⟨t, none, d, ht, rfl, hd, h⟩

/-- **A fetch that succeeds** gives a page of the records that the read goes through in the table as it
is then. -/
theorem Read.fetch_eq {r : Read} {s : MemoryStore} {start : Option Cursor} {page : Page Item}
    (h : r.fetch s start = .ok page) :
    ∃ t ordering, s.table r.table = .ok t ∧ t.definition.ordering r.index = .ok ordering ∧
      page = Table.pageOf ordering (tighter r.limit s.pageSize)
        (r.expressions.passes r.expressions.filter)
        (t.candidates ordering r.forward (r.expressions.passes r.keyCondition) start) := by
  obtain ⟨t, c, d, ht, hc, hd, h⟩ := Read.exists_read h
  obtain ⟨ordering, along, hordering, halong, hpage⟩ := Table.readBy_eq_ok
    (MemoryStore.passes_of_tests hc) (MemoryStore.passes_of_tests hd) h
  obtain rfl : t.inOrder ordering r.forward = along := Except.ok.inj halong
  exact ⟨t, ordering, ht, hordering, hpage⟩

namespace MemoryStore

variable {s s' : MemoryStore}

/-- A write of one record. -/
inductive Write (s s' : MemoryStore) : Prop where
  | put {name : String} {item : Item} (h : s.put name item = .ok s')
  | update {r : UpdateRequest} (h : s.update r = .ok s')
  | delete {name : String} {key : Item} (h : s.delete name key = .ok s')

/-- Each of them writes under one key of one table. -/
theorem Write.exists_writesAt (h : Write s s') :
    ∃ name key written, s.WritesAt s' name key written := by
  cases h with
  | put h => exact ⟨_, _, _, writesAt_put h⟩
  | update h =>
      obtain ⟨_, hwrites⟩ := exists_writesAt_of_update h
      exact ⟨_, _, _, hwrites⟩
  | delete h => exact ⟨_, _, _, writesAt_delete h⟩

/-- Any number of writes, one after the other. -/
def Written : MemoryStore → MemoryStore → Prop := Relation.ReflTransGen Write

namespace Written

theorem reachable (h : s.Written s') (hs : s.Reachable) : s'.Reachable := by
  induction h with
  | refl => exact hs
  | tail _ step ih =>
      cases step with
      | put h => exact ih.put h
      | update h => exact ih.update h
      | delete h => exact ih.delete h

/-- Writes leave the definitions of all tables. -/
theorem definition (h : s.Written s') {name : String} {t : Table} (ht : s.table name = .ok t) :
    ∃ t', s'.table name = .ok t' ∧ t'.definition = t.definition := by
  induction h with
  | refl => exact ⟨t, ht, rfl⟩
  | tail _ step ih =>
      obtain ⟨v, hv, hdefinition⟩ := ih
      obtain ⟨_, _, _, hwrites⟩ := step.exists_writesAt
      obtain ⟨v', hv', hdefinition'⟩ := hwrites.definition hv
      exact ⟨v', hv', hdefinition'.trans hdefinition⟩

end Written

end MemoryStore

/-- A fetch in a run: the store that it found, and the items of its page. -/
structure Visit where
  store : MemoryStore
  items : List Item

/-- The fetches of a read from a store and a cursor on, each from the cursor of the one before, up to
the first page without a cursor.  Between two fetches there may be writes. -/
inductive Followed (r : Read) : MemoryStore → Option Cursor → List Visit → Prop where
  | last {s : MemoryStore} {start : Option Cursor} {items : List Item}
      (h : r.fetch s start = .ok ⟨items, none⟩) : Followed r s start [⟨s, items⟩]
  | more {s s' : MemoryStore} {start : Option Cursor} {items : List Item} {next : Cursor}
      {rest : List Visit} (h : r.fetch s start = .ok ⟨items, some next⟩) (written : s.Written s')
      (after : Followed r s' (some next) rest) : Followed r s start (⟨s, items⟩ :: rest)

/-- The items of all pages of a run, in the order in which they are given. -/
def Visit.allItems (visits : List Visit) : List Item := visits.flatMap Visit.items

namespace MemoryStore

/-- Each attribute that a read is ordered by holds keys of a given kind, in the records of the table and
in the cursor that the read starts from. -/
def ComparableBy (s : MemoryStore) (kinds : String → KeyKind) (table : String) (index : Option String)
    (start : Option Cursor) : Prop :=
  ∀ t ordering, s.table table = .ok t → t.definition.ordering index = .ok ordering →
    t.Ordered kinds ordering ∧ ∀ c, start = some c → c.key.OfKinds kinds ordering

theorem mem_toOption {α : Type} {x : Except Error α} {a : α} : a ∈ x.toOption ↔ x = .ok a := by
  cases x <;> simp [Except.toOption]

/-- Whether a store is comparable can be found out by looking at the one table. -/
theorem comparableBy_iff {s : MemoryStore} {kinds : String → KeyKind} {table : String}
    {index : Option String} {start : Option Cursor} :
    s.ComparableBy kinds table index start ↔
      ∀ t ∈ (s.table table).toOption, ∀ ordering ∈ (t.definition.ordering index).toOption,
        (∀ item ∈ t.records.values, item.OfKinds kinds ordering) ∧
          ∀ c ∈ start, c.key.OfKinds kinds ordering := by
  constructor
  · intro h t ht ordering hordering
    exact h t ordering (mem_toOption.mp ht) (mem_toOption.mp hordering)
  · intro h t ordering ht hordering
    exact h t (mem_toOption.mpr ht) ordering (mem_toOption.mpr hordering)

instance (s : MemoryStore) (kinds : String → KeyKind) (table : String) (index : Option String)
    (start : Option Cursor) : Decidable (s.ComparableBy kinds table index start) :=
  decidable_of_iff _ comparableBy_iff.symm

end MemoryStore

namespace Table

variable {t : Table} {kinds : String → KeyKind} {index : Option String} {ordering : List String}
  {bound : Option Nat} {forward : Bool} {key keep : Item → Bool} {start : Option Cursor}

/-- A page without a cursor has all records that the read goes through and that pass the filter. -/
theorem items_of_last {items candidates : List Item} (hbound : bound ≠ some 0)
    (h : (⟨items, none⟩ : Page Item) = pageOf ordering bound keep candidates) :
    items = candidates.filter keep := by
  rcases pageOf_cases hbound candidates with ⟨hlooked, _⟩ | ⟨_, _, _, _, _, _, hcut⟩
  · rw [← hlooked]
    exact congrArg Page.items h
  · rw [← h] at hcut
    cases hcut

/-- A page with a cursor stops at a record, and its cursor is made from that one. -/
theorem items_of_more {items candidates : List Item} {next : Cursor} (hbound : bound ≠ some 0)
    (h : (⟨items, some next⟩ : Page Item) = pageOf ordering bound keep candidates) :
    ∃ before last after, candidates = before ++ last :: after ∧
      items = (before ++ [last]).filter keep ∧ next = ⟨Item.project last ordering⟩ := by
  rcases pageOf_cases hbound candidates with
    ⟨_, hwhole⟩ | ⟨before, last, after, hsplit, _, hlooked, hcut⟩
  · rw [← h] at hwhole
    cases hwhole
  · rw [← h] at hcut
    refine ⟨before, last, after, hsplit, ?_, Option.some.inj hcut⟩
    rw [← hlooked]
    exact congrArg Page.items h

theorem pairwise_candidates (hfiled : t.Filed) (hordering : t.definition.ordering index = .ok ordering)
    (hkinds : t.Ordered kinds ordering) (forward : Bool) (key : Item → Bool) (start : Option Cursor) :
    (t.candidates ordering forward key start).Pairwise fun a b =>
      isBeyond ordering forward (some ⟨a⟩) b = true :=
  ((pairwise_inOrder hfiled hordering hkinds forward).sublist List.filter_sublist).sublist
    List.filter_sublist

/-- Records in order, and behind the last of them others that are in order and beyond it, are in order
all together. -/
theorem pairwise_append_beyond {before rest : List Item} {last : Item}
    (hbefore : (before ++ [last]).Pairwise fun a b => isBeyond ordering forward (some ⟨a⟩) b = true)
    (hkinds : ∀ a ∈ before ++ [last], a.OfKinds kinds ordering)
    (hrest : rest.Pairwise fun a b => isBeyond ordering forward (some ⟨a⟩) b = true)
    (hbeyond : ∀ b ∈ rest,
      b.OfKinds kinds ordering ∧ isBeyond ordering forward (some ⟨last⟩) b = true) :
    (before ++ [last] ++ rest).Pairwise fun a b =>
      isBeyond ordering forward (some ⟨a⟩) b = true := by
  refine List.pairwise_append.mpr ⟨hbefore, hrest, ?_⟩
  intro a ha b hb
  obtain ⟨hbkinds, hlastb⟩ := hbeyond b hb
  rcases List.mem_append.mp ha with hfirst | hlast
  · have halast := (List.pairwise_append.mp hbefore).2.2 a hfirst last (List.mem_singleton_self last)
    refine isBeyond_trans ?_ (hkinds last (by simp)) hbkinds halast hlastb
    rintro _ ⟨⟩
    exact hkinds a ha
  · obtain rfl := List.mem_singleton.mp hlast
    exact hlastb

end Table

namespace Followed

variable {r : Read} {s : MemoryStore} {start : Option Cursor} {visits : List Visit} {t : Table}
  {kinds : String → KeyKind} {ordering : List String}

/-- What one fetch goes through. -/
theorem fetch_eq {page : Page Item} (h : r.fetch s start = .ok page) (ht : s.table r.table = .ok t)
    (hordering : t.definition.ordering r.index = .ok ordering) :
    page = Table.pageOf ordering (tighter r.limit s.pageSize)
      (r.expressions.passes r.expressions.filter)
      (t.candidates ordering r.forward (r.expressions.passes r.keyCondition) start) := by
  obtain ⟨t', ordering', ht', hordering', hpage⟩ := Read.fetch_eq h
  obtain rfl := Except.ok.inj (ht.symm.trans ht')
  obtain rfl := Except.ok.inj (hordering.symm.trans hordering')
  exact hpage

/-- A run begins with a fetch from its store and cursor. -/
theorem exists_first (h : Followed r s start visits) :
    ∃ page rest, r.fetch s start = .ok page ∧ visits = ⟨s, page.items⟩ :: rest := by
  cases h with
  | last h => exact ⟨_, [], h, rfl⟩
  | more h _ _ => exact ⟨_, _, h, rfl⟩

theorem bound_ne_zero (hs : s.Reachable) (hlimit : r.limit ≠ some 0) :
    tighter r.limit s.pageSize ≠ some 0 :=
  tighter_ne_zero hlimit hs.filed_and_pageSize.2

/-- **All pages together are in order**, and all of them beyond the cursor that the run starts from. -/
theorem inOrder (h : Followed r s start visits) (hs : s.Reachable) (hlimit : r.limit ≠ some 0)
    (ht : s.table r.table = .ok t) (hordering : t.definition.ordering r.index = .ok ordering)
    (hkinds : ∀ v ∈ visits, ∀ t, v.store.table r.table = .ok t →
      t.definition.ordering r.index = .ok ordering → t.Ordered kinds ordering)
    (hstart : ∀ c, start = some c → c.key.OfKinds kinds ordering) :
    (Visit.allItems visits).Pairwise
        (fun a b => Table.isBeyond ordering r.forward (some ⟨a⟩) b = true) ∧
      ∀ a ∈ Visit.allItems visits,
        a.OfKinds kinds ordering ∧ Table.isBeyond ordering r.forward start a = true := by
  induction h generalizing t with
  | @last s start items hfetch =>
      have hordered := hkinds _ List.mem_cons_self t ht hordering
      have hitems := Table.items_of_last (bound_ne_zero hs hlimit) (fetch_eq hfetch ht hordering)
      have hpairwise := Table.pairwise_candidates (hs.filed_table ht) hordering hordered
        r.forward (r.expressions.passes r.keyCondition) start
      have hall : Visit.allItems [⟨s, items⟩] = items := by simp [Visit.allItems]
      rw [hall, hitems]
      refine ⟨hpairwise.sublist List.filter_sublist, ?_⟩
      intro a ha
      obtain ⟨⟨hrecord, _⟩, _, hbeyond⟩ := Table.mem_candidates.mp (List.mem_filter.mp ha).1
      exact ⟨hordered a hrecord, hbeyond⟩
  | @more s s' start items next rest hfetch written after ih =>
      have hordered := hkinds _ List.mem_cons_self t ht hordering
      obtain ⟨before, last, behind, hcut, hitems, rfl⟩ :=
        Table.items_of_more (bound_ne_zero hs hlimit) (fetch_eq hfetch ht hordering)
      have hpairwise := Table.pairwise_candidates (hs.filed_table ht) hordering hordered
        r.forward (r.expressions.passes r.keyCondition) start
      have hcandidate : ∀ a ∈ before ++ last :: behind,
          a.OfKinds kinds ordering ∧ Table.isBeyond ordering r.forward start a = true := by
        intro a ha
        rw [← hcut] at ha
        obtain ⟨⟨hrecord, _⟩, _, hbeyond⟩ := Table.mem_candidates.mp ha
        exact ⟨hordered a hrecord, hbeyond⟩
      rw [hcut] at hpairwise
      obtain ⟨hlast, hlastBeyond⟩ := hcandidate last (by simp)
      have hfirst : (before ++ [last]).Sublist (before ++ last :: behind) := by simp
      have hfirstMembers := fun a ha => hcandidate a (hfirst.subset ha)
      -- the rest of the run begins behind the record that the page stopped at, in a store that has
      -- the same definitions
      obtain ⟨t', ht', hdefinition⟩ := written.definition ht
      have hnext : ∀ c, some (Cursor.mk (Item.project last ordering)) = some c →
          c.key.OfKinds kinds ordering := by
        rintro _ ⟨⟩
        exact hlast.project
      obtain ⟨hrest, hmembers⟩ := ih (written.reachable hs) ht' (hdefinition ▸ hordering)
        (fun v hv => hkinds v (List.mem_cons_of_mem _ hv)) hnext
      rw [Table.isBeyond_project] at hmembers
      have hall : Visit.allItems (⟨s, items⟩ :: rest) =
          (before ++ [last]).filter (r.expressions.passes r.expressions.filter) ++
            Visit.allItems rest := by
        rw [← hitems]
        rfl
      rw [hall]
      refine ⟨?_, ?_⟩
      · have htogether := Table.pairwise_append_beyond (hpairwise.sublist hfirst)
          (fun a ha => (hfirstMembers a ha).1) hrest hmembers
        exact htogether.sublist (List.filter_sublist.append_right _)
      · intro a ha
        rcases List.mem_append.mp ha with ha | ha
        · exact hfirstMembers a (List.mem_filter.mp ha).1
        · obtain ⟨hakinds, haBeyond⟩ := hmembers a ha
          exact ⟨hakinds, Table.isBeyond_trans hstart hlast hakinds hlastBeyond haBeyond⟩

/-- **What every fetch finds is given**, if it matches and is beyond the cursor that the run starts
from. -/
theorem complete (h : Followed r s start visits) (hs : s.Reachable) (hlimit : r.limit ≠ some 0)
    (ht : s.table r.table = .ok t) (hordering : t.definition.ordering r.index = .ok ordering)
    (hkinds : ∀ v ∈ visits, ∀ t, v.store.table r.table = .ok t →
      t.definition.ordering r.index = .ok ordering → t.Ordered kinds ordering)
    {item : Item}
    (hpresent : ∀ v ∈ visits, ∃ t, v.store.table r.table = .ok t ∧ item ∈ t.records.values)
    (hall : item.hasAll ordering = true) (hmatches : r.Matches item)
    (hbeyond : Table.isBeyond ordering r.forward start item = true) :
    item ∈ Visit.allItems visits := by
  obtain ⟨hkey, hkeep⟩ := hmatches
  have hkey := Expressions.passes_iff.mpr hkey
  have hkeep := Expressions.passes_iff.mpr hkeep
  induction h generalizing t with
  | @last s start items hfetch =>
      have hitems := Table.items_of_last (bound_ne_zero hs hlimit) (fetch_eq hfetch ht hordering)
      obtain ⟨t', ht', hrecord⟩ := hpresent _ List.mem_cons_self
      obtain rfl := Except.ok.inj (ht.symm.trans ht')
      have hmem := Table.mem_candidates.mpr ⟨⟨hrecord, hall⟩, hkey, hbeyond⟩
      have hitem : item ∈ items := by
        rw [hitems]
        exact List.mem_filter.mpr ⟨hmem, hkeep⟩
      simpa [Visit.allItems] using hitem
  | @more s s' start items next rest hfetch written after ih =>
      obtain ⟨before, last, behind, hcut, hitems, rfl⟩ :=
        Table.items_of_more (bound_ne_zero hs hlimit) (fetch_eq hfetch ht hordering)
      obtain ⟨t', ht', hrecord⟩ := hpresent _ List.mem_cons_self
      obtain rfl := Except.ok.inj (ht.symm.trans ht')
      have hmem := Table.mem_candidates.mpr ⟨⟨hrecord, hall⟩, hkey, hbeyond⟩
      have hpairwise := Table.pairwise_candidates (hs.filed_table ht) hordering
        (hkinds _ List.mem_cons_self t ht hordering) r.forward (r.expressions.passes r.keyCondition) start
      rw [hcut] at hmem hpairwise
      rw [List.append_cons] at hmem
      have hsplit : Visit.allItems (⟨s, items⟩ :: rest) = items ++ Visit.allItems rest := rfl
      rw [hsplit, List.mem_append]
      rcases List.mem_append.mp hmem with hfirst | hbehind
      · left
        rw [hitems]
        exact List.mem_filter.mpr ⟨hfirst, hkeep⟩
      · right
        obtain ⟨t', ht', hdefinition⟩ := written.definition ht
        have hlast := (List.pairwise_cons.mp (List.pairwise_append.mp hpairwise).2.1).1 item hbehind
        refine ih (written.reachable hs) ht' (hdefinition ▸ hordering)
          (fun v hv => hkinds v (List.mem_cons_of_mem _ hv))
          (fun v hv => hpresent v (List.mem_cons_of_mem _ hv)) ?_
        rw [Table.isBeyond_project]
        exact hlast

end Followed

/-- **Pages are steady under writes.**  Take any query or scan with any limit, in a store that can be
reached, and follow its cursors up to the last page while records are put, changed and removed between
the fetches.  If each attribute that the read is ordered by keeps to keys of one kind, the items of all
pages are in strict order together, and each record that every fetch finds in the table, that matches,
has all attributes of the order and comes after the cursor of the read, is among them exactly once. -/
theorem steady_under_writes {r : Read} {s : MemoryStore} {visits : List Visit}
    {kinds : String → KeyKind} (hs : s.Reachable) (hlimit : r.limit ≠ some 0)
    (hfollowed : Followed r s r.start visits)
    (hkinds : ∀ v ∈ visits, v.store.ComparableBy kinds r.table r.index r.start) :
    ∃ t ordering, s.table r.table = .ok t ∧ t.definition.ordering r.index = .ok ordering ∧
      (Visit.allItems visits).Pairwise
        (fun a b => Item.compareOn ordering a b = if r.forward then .lt else .gt) ∧
      ∀ item, (∀ v ∈ visits, ∃ t, v.store.table r.table = .ok t ∧ item ∈ t.records.values) →
        item.hasAll ordering = true → r.Matches item →
          Table.isBeyond ordering r.forward r.start item = true →
            (Visit.allItems visits).count item = 1 := by
  obtain ⟨page, rest, hfetch, hvisits⟩ := hfollowed.exists_first
  obtain ⟨t, ordering, ht, hordering, _⟩ := Read.fetch_eq hfetch
  have hfirst : (⟨s, page.items⟩ : Visit) ∈ visits := by simp [hvisits]
  have hstart := (hkinds _ hfirst t ordering ht hordering).2
  have hordered : ∀ v ∈ visits, ∀ t, v.store.table r.table = .ok t →
      t.definition.ordering r.index = .ok ordering → t.Ordered kinds ordering :=
    fun v hv t ht hordering => (hkinds v hv t ordering ht hordering).1
  have hpairwise := (hfollowed.inOrder hs hlimit ht hordering hordered hstart).1
  have hnodup : (Visit.allItems visits).Nodup := by
    refine hpairwise.imp ?_
    rintro a _ hbeyond rfl
    exact absurd hbeyond (by simp [Table.isBeyond_self])
  refine ⟨t, ordering, ht, hordering, hpairwise.imp ?_, ?_⟩
  · intro a b hbeyond
    have hba := of_decide_eq_true hbeyond
    rw [Item.compareOn_swap, hba]
    cases r.forward <;> rfl
  · intro item hpresent hall hmatches hbeyond
    refine List.count_eq_one_of_mem hnodup ?_
    exact hfollowed.complete hs hlimit ht hordering hordered hpresent hall hmatches hbeyond

namespace MemoryStore

/-- A record under a target. -/
def post (target : String) : Item := .ofList [("source", .string "s"), ("target", .string target)]

/-- Two records, one of them a page. -/
def posts : MemoryStore :=
  let file (s : MemoryStore) (target : String) : MemoryStore :=
    ((store.put "posts" (post target)).run s).2
  (["b", "d"].foldl file
    (MemoryStore.empty.createTable ⟨"posts", ⟨"source", some "target"⟩, .empty⟩)).withPageSize 1

/-- The same records without the first one. -/
def fewerPosts : MemoryStore := ((store.delete "posts" (post "b")).run posts).2

/-- The same records with another one in the place where the first one was. -/
def changedPosts : MemoryStore := ((store.put "posts" (post "c")).run fewerPosts).2

/-- A scan of the records. -/
def scanPosts : Read := .scan ⟨"posts", none, .empty, none, none⟩

/-- What a client finds that scans the records while they change after its first page. -/
def postVisits : List Visit :=
  [⟨posts, [post "b"]⟩, ⟨changedPosts, [post "c"]⟩, ⟨changedPosts, [post "d"]⟩]

end MemoryStore

open MemoryStore in
/-- The first record is removed after its page, and a record that comes after it is still found. -/
theorem steady_under_writes_posts :
    posts.Reachable ∧ scanPosts.limit ≠ some 0 ∧ Followed scanPosts posts scanPosts.start postVisits ∧
      (∀ v ∈ postVisits, v.store.ComparableBy (fun _ => .text) "posts" none none) ∧
      (Visit.allItems postVisits).count (post "d") = 1 := by
  have hposts : posts.Reachable := by
    have hempty := Reachable.empty.createTable ⟨"posts", ⟨"source", some "target"⟩, .empty⟩
    exact ((hempty.run_put "posts" (post "b")).run_put "posts" (post "d")).withPageSize 1
  have hlimit : scanPosts.limit ≠ some 0 := by decide
  have hfollowed : Followed scanPosts posts scanPosts.start postVisits := by
    have hdelete : posts.delete "posts" (post "b") = .ok fewerPosts := by decide +kernel
    have hput : fewerPosts.put "posts" (post "c") = .ok changedPosts := by decide +kernel
    have hwritten : posts.Written changedPosts := .tail (.single (.delete hdelete)) (.put hput)
    have hfirst : scanPosts.fetch posts none = .ok ⟨[post "b"], some ⟨post "b"⟩⟩ := by decide +kernel
    have hsecond : scanPosts.fetch changedPosts (some ⟨post "b"⟩) =
        .ok ⟨[post "c"], some ⟨post "c"⟩⟩ := by decide +kernel
    have hlast : scanPosts.fetch changedPosts (some ⟨post "c"⟩) = .ok ⟨[post "d"], none⟩ := by
      decide +kernel
    exact .more hfirst hwritten (.more hsecond .refl (.last hlast))
  have hkinds : ∀ v ∈ postVisits,
      v.store.ComparableBy (fun _ => .text) scanPosts.table scanPosts.index scanPosts.start := by
    decide +kernel
  obtain ⟨t, ordering, ht, hordering, _, hcomplete⟩ :=
    steady_under_writes hposts hlimit hfollowed hkinds
  have hpresent : ∀ v ∈ postVisits, ∃ t ∈ (v.store.table "posts").toOption,
      post "d" ∈ t.records.values := by
    decide +kernel
  have hall : ∀ t ∈ (posts.table "posts").toOption, ∀ ordering ∈ (t.definition.ordering none).toOption,
      (post "d").hasAll ordering = true := by
    decide +kernel
  refine ⟨hposts, hlimit, hfollowed, hkinds, hcomplete (post "d") ?_ ?_ ⟨rfl, rfl⟩ rfl⟩
  · intro v hv
    obtain ⟨t, ht, hrecord⟩ := hpresent v hv
    exact ⟨t, mem_toOption.mp ht, hrecord⟩
  · exact hall t (mem_toOption.mpr ht) ordering (mem_toOption.mpr hordering)

end RecordStore
