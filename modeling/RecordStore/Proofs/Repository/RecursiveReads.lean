import RecordStore.Proofs.Store.AllPages
import RecordStore.Proofs.Store.RequestPages
import RecordStore.Repository.Basic
import RecordStore.Store.Journal

/-!
# Recursive reads

A recursive read follows the cursors of its pages to the end.  Whatever bounds the pages, it comes to
what the same read gives as one page without a bound, and it takes no more fetches than its records
need.

* `MemoryStore.Comparable` — the condition under which records are in strict order;
* `MemoryStore.run_collect` — all pages of a read, for any state that fetches work on;
* `Repository.recursive_reads_complete` — recursive queries and scans.
-/

namespace RecordStore

namespace MemoryStore

/-- The same tables, with no bound on the pages. -/
def unbounded (s : MemoryStore) : MemoryStore := { s with pageSize := none }

/-- Each attribute that a read is ordered by holds texts only, or bytes only, or truth values only, in
the records of the table and in the cursor that the read starts from. -/
def Comparable (s : MemoryStore) (table : String) (index : Option String) (start : Option Cursor) :
    Prop :=
  ∃ kinds, ∀ t ordering, s.table table = .ok t → t.definition.ordering index = .ok ordering →
    t.Ordered kinds ordering ∧ ∀ c, start = some c → c.key.OfKinds kinds ordering

/-- The records that a read from a cursor goes through: those that match its key, have all attributes
that it is ordered by and come after the cursor. -/
def matching (s : MemoryStore) (table : String) (index : Option String) (forward : Bool)
    (key : Item → Bool) (start : Option Cursor) : Except Error (List Item) := do
  let t ← s.table table
  let ordering ← t.definition.ordering index
  return t.records.values.filter fun item =>
    item.hasAll ordering && key item && Table.isBeyond ordering forward start item

/-- A read goes through these records, in its own order. -/
theorem perm_candidates (t : Table) (ordering : List String) (forward : Bool) (key : Item → Bool)
    (start : Option Cursor) :
    (t.candidates ordering forward key start).Perm (t.records.values.filter fun item =>
      item.hasAll ordering && key item && Table.isBeyond ordering forward start item) := by
  have hinOrder : (t.inOrder ordering forward).Perm
      (t.records.values.filter fun item => item.hasAll ordering) := by
    unfold Table.inOrder
    cases forward with
    | true => exact Item.perm_sorted _ _
    | false => exact (List.reverse_perm _).trans (Item.perm_sorted _ _)
  refine ((hinOrder.filter key).filter (Table.isBeyond ordering forward start)).trans (.of_eq ?_)
  rw [List.filter_filter, List.filter_filter]
  refine List.filter_congr ?_
  intro item _
  cases item.hasAll ordering <;> cases key item <;> simp

/-- Adding sizes up makes a number no less. -/
theorem le_foldl_size (tables : List Table) (n : Nat) :
    n ≤ tables.foldl (fun n t => n + t.records.size) n := by
  induction tables generalizing n with
  | nil => exact Nat.le_refl n
  | cons t rest ih => exact Nat.le_trans (Nat.le_add_right _ _) (ih _)

/-- A sum of sizes is no less than one of them. -/
theorem add_size_le_foldl_size {tables : List Table} {t : Table} (h : t ∈ tables) (n : Nat) :
    n + t.records.size ≤ tables.foldl (fun n t => n + t.records.size) n := by
  induction tables generalizing n with
  | nil => simp at h
  | cons u rest ih =>
      rcases List.mem_cons.mp h with rfl | h
      · exact le_foldl_size rest _
      · exact Nat.le_trans (Nat.add_le_add_right (Nat.le_add_right _ _) _) (ih h _)

/-- The bound on fetches is larger than any table. -/
theorem size_lt_fetchBound {s : MemoryStore} {name : String} {t : Table} (h : s.table name = .ok t) :
    t.records.size < s.fetchBound := by
  have hmem : t ∈ s.tables.values :=
    List.mem_map.mpr ⟨(name, t), s.tables.mem_entries_iff.mpr (table_eq_ok_iff.mp h), rfl⟩
  have hsum := add_size_le_foldl_size hmem 2
  unfold fetchBound
  omega

/-- **All pages of a read are the one page that it has without a bound**, and they take as many fetches
as its records need. -/
theorem run_collect {σ : Type} {s : MemoryStore} {table : String} {index : Option String}
    {forward : Bool} {key : Item → Bool}
    {page : MemoryStore → Option Nat → Option Cursor → Except Error (Page Item)}
    (hpaged : Paged table index forward key page) (hfiled : s.Filed) {limit : Option Nat}
    (hlimit : limit ≠ some 0) (hpageSize : s.pageSize ≠ some 0) {start : Option Cursor}
    (hcomparable : s.Comparable table index start) {budget : Nat} (hbudget : s.fetchBound ≤ budget)
    {fetch : Option Cursor → Step σ (Page Item)} {At : Nat → σ → Prop}
    (hfetch : ∀ k x start, At k x →
      ∃ x', At (k + 1) x' ∧ (fetch start).run x = (page s limit start, x')) {x : σ} (hx : At 0 x) :
    ∃ x', (Page.collect fetch budget start true).run x = (page s.unbounded none start, x') ∧
      ∀ p, page s limit start = .ok p →
        ∃ records, s.matching table index forward key start = .ok records ∧
          At (Page.fetches (tighter limit s.pageSize) records.length) x' := by
  rcases hpaged.pages s with ⟨fault, hfault⟩ | ⟨keep, t, ordering, ht, hordering, hpage⟩
  · -- the first fetch fails, and so does the page without a bound
    obtain ⟨x', -, hrun⟩ := hfetch 0 x start hx
    have hfails : page s limit start = .error fault := hfault limit s.pageSize start
    have hfails' : page s.unbounded none start = .error fault := hfault none none start
    rw [hfails] at hrun
    have hpos : 2 ≤ s.fetchBound := le_foldl_size _ 2
    refine ⟨x', ?_, ?_⟩
    · rw [hfails']
      exact Page.run_collect_of_last hrun (by simp) (by omega) true
    · intro p hp
      rw [hfails] at hp
      cases hp
  · have hpages : ∀ start, page s limit start =
        .ok (Table.pageOf ordering (tighter limit s.pageSize) keep
          (t.candidates ordering forward key start)) := fun start => hpage limit s.pageSize start
    obtain ⟨kinds, hkinds⟩ := hcomparable
    obtain ⟨hordered, hstart⟩ := hkinds t ordering ht hordering
    have hbound : tighter limit s.pageSize ≠ some 0 := tighter_ne_zero hlimit hpageSize
    have hperm := perm_candidates t ordering forward key start
    have hcount : (t.candidates ordering forward key start).length ≤ t.records.size := by
      rw [hperm.length_eq]
      refine Nat.le_trans (List.length_filter_le _ _) (Nat.le_of_eq ?_)
      exact List.length_map _
    have hfetches := Page.fetches_le hbound (t.candidates ordering forward key start).length
    have hsize := size_lt_fetchBound ht
    simp only [hpages] at hfetch
    obtain ⟨fetches, x', hchain, hx', hlength, hall⟩ :=
      Table.exists_chain (hfiled _ t (table_eq_ok_iff.mp ht)) hordering hordered hbound hfetch hstart hx
    rw [Nat.zero_add, hlength, hperm.length_eq] at hx'
    have hwhole : page s.unbounded none start =
        .ok ⟨(t.candidates ordering forward key start).filter keep, none⟩ := by
      rw [← @Table.pageOf_whole ordering none keep _ (by simp)]
      exact hpage none none start
    refine ⟨x', ?_, fun p _ => ⟨_, ?_, hx'⟩⟩
    · rw [hwhole, hchain.run_collect (by omega), hall]
    · simp only [matching, ht, hordering, bind, Except.bind, pure, Except.pure]

end MemoryStore

namespace Repository

/-- What a repository makes of the pages of a read. -/
theorem run_collect {σ : Type} {r : Repository σ} {fetch : Option Cursor → Step σ (Page Item)}
    {budget : Nat} {start : Option Cursor} {recursive : Bool} {x x' : σ}
    {result : Except Error (Page Item)}
    (h : (Page.collect fetch budget start recursive).run x = (result, x')) :
    (r.collect fetch budget start recursive).run x =
      ((r.pageOf result).map fun page => ⟨page.items, page.cursor⟩, x') := by
  rw [collect, Step.run_bind, h]
  cases result with
  | error fault => rfl
  | ok page =>
      simp only [Step.run_bind, Step.run_ofExcept, pageOf, Except.bind]
      cases r.entities page <;> rfl

/-- The answer to a recursive read has nothing to go on from. -/
theorem lastKey_of_recursive {σ : Type} {r : Repository σ}
    {fetch : Option Cursor → Step σ (Page Item)} {budget : Nat} {start : Option Cursor} {x : σ}
    {answers : Answers} (h : ((r.collect fetch budget start true).run x).1 = .ok answers) :
    answers.lastKey = none := by
  rcases hrun : (Page.allItems fetch budget budget start).run x with ⟨result, x'⟩
  have hcollect : (Page.collect fetch budget start true).run x =
      (result.map fun items => ⟨items, none⟩, x') := by
    rw [Page.collect, if_pos rfl, Step.run_bind, hrun]
    cases result <;> rfl
  rw [run_collect hcollect] at h
  cases result with
  | error fault => cases h
  | ok items =>
      simp only [pageOf, entities, Page.convert, Except.map, Except.bind] at h
      cases hitems : Entity.ofItems r.config.delimiter items with
      | error fault =>
          rw [hitems] at h
          cases h
      | ok found =>
          rw [hitems] at h
          rw [← Except.ok.inj h]

/-- A repository for a store in memory. -/
def inMemory (config : Config) : Repository MemoryStore := ⟨MemoryStore.store, config⟩

/-- The same repository, with every request written down. -/
def journaled (config : Config) : Repository (Journal MemoryStore) :=
  ⟨Journal.store MemoryStore.store, config⟩

section RecursiveReads

variable {s : MemoryStore} {config : Config} {budget : Nat}

/-- What a recursive read comes to, from what its fetches do: in memory with the bounds, in memory
without them, and with every request written down. -/
theorem collect_complete (hs : s.Reachable) (hbudget : s.fetchBound ≤ budget)
    {index : Option String} {forward : Bool} {key : Item → Bool}
    {page : MemoryStore → Option Nat → Option Cursor → Except Error (Page Item)}
    (hpaged : MemoryStore.Paged config.table index forward key page) {limit : Option Nat}
    (hlimit : limit ≠ some 0) {start : Option Cursor}
    (hcomparable : s.Comparable config.table index start)
    {fetch fetchAll : Option Cursor → Step MemoryStore (Page Item)}
    {noted : Option Cursor → Step (Journal MemoryStore) (Page Item)}
    (hfetch : ∀ start, (fetch start).run s = (page s limit start, s))
    (hfetchAll : ∀ start, (fetchAll start).run s.unbounded = (page s.unbounded none start, s.unbounded))
    (hnoted : ∀ calls start, ∃ call,
      (noted start).run ⟨s, [], calls⟩ = (page s limit start, ⟨s, [], calls ++ [call]⟩)) :
    ((Page.collect fetch budget start true).run s).1 = page s.unbounded none start ∧
    (((inMemory config).collect fetch budget start true).run s).1 =
      (((inMemory config).collect fetchAll budget start true).run s.unbounded).1 ∧
    (∀ answers, (((inMemory config).collect fetch budget start true).run s).1 = .ok answers →
      answers.lastKey = none) ∧
    ∀ first, page s limit start = .ok first →
      ∃ records, s.matching config.table index forward key start = .ok records ∧
        (((journaled config).collect noted budget start true).run ⟨s, [], []⟩).2.calls.length =
          Page.fetches (tighter limit s.pageSize) records.length := by
  obtain ⟨hfiled, hpageSize⟩ := hs.filed_and_pageSize
  have hinMemory : ∀ (k : Nat) (x : MemoryStore) start, x = s →
      ∃ x', x' = s ∧ (fetch start).run x = (page s limit start, x') := by
    rintro k x start rfl
    exact ⟨x, rfl, hfetch start⟩
  have hunbounded : ∀ (k : Nat) (x : MemoryStore) start, x = s.unbounded →
      ∃ x', x' = s.unbounded ∧ (fetchAll start).run x = (page s.unbounded none start, x') := by
    rintro k x start rfl
    exact ⟨s.unbounded, rfl, hfetchAll start⟩
  have hjournaled : ∀ (k : Nat) (j : Journal MemoryStore) start,
      (∃ calls, j = ⟨s, [], calls⟩ ∧ calls.length = k) →
        ∃ j', (∃ calls, j' = ⟨s, [], calls⟩ ∧ calls.length = k + 1) ∧
          (noted start).run j = (page s limit start, j') := by
    rintro _ _ start ⟨calls, rfl, rfl⟩
    obtain ⟨call, hcall⟩ := hnoted calls start
    exact ⟨_, ⟨calls ++ [call], rfl, by rw [List.length_append, List.length_singleton]⟩, hcall⟩
  obtain ⟨s', hrun, -⟩ := MemoryStore.run_collect hpaged hfiled hlimit hpageSize hcomparable hbudget
    hinMemory rfl
  have hnone : (none : Option Nat) ≠ some 0 := by simp
  obtain ⟨u', hrunAll, -⟩ := MemoryStore.run_collect (s := s.unbounded) hpaged hfiled hnone hnone
    hcomparable hbudget hunbounded rfl
  obtain ⟨j', hrunNoted, hcount⟩ := MemoryStore.run_collect hpaged hfiled hlimit hpageSize hcomparable
    hbudget hjournaled (x := ⟨s, [], []⟩) ⟨[], rfl, rfl⟩
  have hresult := run_collect (r := inMemory config) hrun
  have hresultAll := run_collect (r := inMemory config) hrunAll
  have hresultNoted := run_collect (r := journaled config) hrunNoted
  refine ⟨by rw [hrun], ?_, ?_, ?_⟩
  · rw [hresult, hresultAll]
    rfl
  · intro answers hanswers
    exact lastKey_of_recursive hanswers
  · intro first hfirst
    obtain ⟨records, hrecords, calls, rfl, hcalls⟩ := hcount first hfirst
    exact ⟨records, hrecords, by rw [hresultNoted]; exact hcalls⟩

/-- **Recursive reads lose and duplicate nothing.**  In every store that can be reached, whatever the
limit of the read and the bound on pages, all pages of a recursive query or scan together are the one
page that there is without a limit and without a bound.  So the answer is the same as without them, it
leaves nothing to go on from, and unless a fetch fails it takes one fetch for each part of the records
that match, and one if there are none. -/
theorem recursive_reads_complete (hs : s.Reachable) (hbudget : s.fetchBound ≤ budget) :
    (∀ q : Query, q.recursive = true → q.limit ≠ some 0 →
      s.Comparable config.table q.index q.start →
        ((Page.collect ((inMemory config).fetchQuery q) budget q.start q.recursive).run s).1 =
          s.unbounded.query ({ q with limit := none }.request config.table config.filterDeleted) ∧
        (((inMemory config).query budget q).run s).1 =
          (((inMemory config).query budget { q with limit := none }).run s.unbounded).1 ∧
        (∀ answers, (((inMemory config).query budget q).run s).1 = .ok answers →
          answers.lastKey = none) ∧
        ∀ first, s.query (q.request config.table config.filterDeleted) = .ok first →
          ∃ records, s.matching config.table q.index q.forward
              (fun item => decide (q.key.Hold item)) q.start = .ok records ∧
            (((journaled config).query budget q).run ⟨s, [], []⟩).2.calls.length =
              Page.fetches (tighter q.limit s.pageSize) records.length) ∧
    ∀ q : Scan, q.recursive = true → q.limit ≠ some 0 →
      s.Comparable config.table q.index q.start →
        ((Page.collect ((inMemory config).fetchScan q) budget q.start q.recursive).run s).1 =
          s.unbounded.scan ({ q with limit := none }.request config.table config.filterDeleted) ∧
        (((inMemory config).scan budget q).run s).1 =
          (((inMemory config).scan budget { q with limit := none }).run s.unbounded).1 ∧
        (∀ answers, (((inMemory config).scan budget q).run s).1 = .ok answers →
          answers.lastKey = none) ∧
        ∀ first, s.scan (q.request config.table config.filterDeleted) = .ok first →
          ∃ records, s.matching config.table q.index true (fun _ => true) q.start = .ok records ∧
            (((journaled config).scan budget q).run ⟨s, [], []⟩).2.calls.length =
              Page.fetches (tighter q.limit s.pageSize) records.length := by
  constructor
  · intro q hrecursive hlimit hcomparable
    obtain ⟨key, filter, index, limit, forward, start, recursive, filterDeleted⟩ := q
    obtain rfl : recursive = true := hrecursive
    exact collect_complete hs hbudget (MemoryStore.paged_query _ _ _) hlimit hcomparable
      (fun _ => rfl) (fun _ => rfl) fun _ _ => ⟨_, rfl⟩
  · intro q hrecursive hlimit hcomparable
    obtain ⟨filter, index, limit, start, recursive, filterDeleted⟩ := q
    obtain rfl : recursive = true := hrecursive
    exact collect_complete hs hbudget (MemoryStore.paged_scan _ _ _) hlimit hcomparable
      (fun _ => rfl) (fun _ => rfl) fun _ _ => ⟨_, rfl⟩

end RecursiveReads

/-- A record of a kind. -/
def note (target kind : String) : Item :=
  .ofList [("source", .string "s"), ("target", .string target), ("kind", .string kind)]

/-- Three records of one kind in a table with an index by kind, two of them a page. -/
def notes : MemoryStore :=
  let definition : TableDefinition :=
    ⟨"notes", ⟨"source", some "target"⟩, .ofList [("byKind", ⟨"kind", none⟩)]⟩
  let file (s : MemoryStore) (target : String) : MemoryStore :=
    ((MemoryStore.store.put "notes" (note target "todo")).run s).2
  (["b", "a", "c"].foldl file (MemoryStore.empty.createTable definition)).withPageSize 2

/-- The records of that kind, against the order of their keys. -/
def latestNotes : Query :=
  { Query.ofKey (.ofList [("kind", .equals (.string "todo"))]) with
    index := some "byKind"
    limit := some 3
    forward := false
    recursive := true }

/-- The notes are put one after the other. -/
theorem reachable_notes : notes.Reachable := by
  have hempty := MemoryStore.Reachable.empty.createTable
    ⟨"notes", ⟨"source", some "target"⟩, .ofList [("byKind", ⟨"kind", none⟩)]⟩
  have hone := hempty.run_put "notes" (note "b" "todo")
  have htwo := hone.run_put "notes" (note "a" "todo")
  exact (htwo.run_put "notes" (note "c" "todo")).withPageSize 2

/-- What they hold is text. -/
theorem comparable_notes (index : Option String) : notes.Comparable "notes" index none := by
  refine ⟨fun _ => .text, fun t ordering ht _ => ⟨fun item hitem => ?_, by simp⟩⟩
  have hvalues : (notes.table "notes").map (fun t => t.records.values) =
      .ok (["a", "b", "c"].map fun target => note target "todo") := rfl
  rw [ht] at hvalues
  have hvalues : t.records.values = ["a", "b", "c"].map fun target => note target "todo" :=
    Except.ok.inj hvalues
  rw [hvalues] at hitem
  obtain ⟨target, _, rfl⟩ := List.mem_map.mp hitem
  intro name _ v hv
  simp only [note, Dict.ofList, List.foldl_cons, List.foldl_nil, Dict.get?_insert,
    Dict.get?_empty] at hv
  split at hv
  · exact ⟨"todo", (Option.some.inj hv).symm⟩
  · split at hv
    · exact ⟨target, (Option.some.inj hv).symm⟩
    · split at hv
      · exact ⟨"s", (Option.some.inj hv).symm⟩
      · cases hv

/-- Three records take two fetches of two. -/
theorem recursive_reads_notes :
    notes.Reachable ∧ notes.fetchBound ≤ 5 ∧ latestNotes.recursive = true ∧
      latestNotes.limit ≠ some 0 ∧ notes.Comparable "notes" latestNotes.index latestNotes.start ∧
      (((inMemory { table := "notes" }).query 5 latestNotes).run notes).1 =
        (((inMemory { table := "notes" }).query 5 { latestNotes with limit := none }).run
          notes.unbounded).1 ∧
      (((journaled { table := "notes" }).query 5 latestNotes).run ⟨notes, [], []⟩).2.calls.length =
        2 := by
  have hbudget : notes.fetchBound ≤ 5 := by decide
  have hlimit : latestNotes.limit ≠ some 0 := by decide
  have hcomparable := comparable_notes latestNotes.index
  obtain ⟨_, hsame, _, hfetches⟩ := (@recursive_reads_complete notes { table := "notes" } 5
    reachable_notes hbudget).1 latestNotes rfl hlimit hcomparable
  have hreadable : latestNotes.IsReadable := ⟨by decide, by decide, by decide⟩
  obtain ⟨first, hfirst⟩ : ∃ first, notes.query (latestNotes.request "notes" true) = .ok first :=
    ⟨_, MemoryStore.query_request_eq hreadable "notes" true notes (some 3) none⟩
  obtain ⟨records, hrecords, hcalls⟩ := hfetches first hfirst
  have hlength : (notes.matching "notes" latestNotes.index false
      (fun item => decide (latestNotes.key.Hold item)) none).map List.length = .ok 3 := rfl
  have hrecords' : notes.matching "notes" latestNotes.index false
      (fun item => decide (latestNotes.key.Hold item)) none = .ok records := hrecords
  rw [hrecords'] at hlength
  have hthree : records.length = 3 := Except.ok.inj hlength
  refine ⟨reachable_notes, hbudget, rfl, hlimit, hcomparable, hsame, ?_⟩
  rw [hcalls, hthree]
  rfl

end Repository

end RecordStore
