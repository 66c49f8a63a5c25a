import RecordStore.Proofs.Repository.RecursiveReads

/-!
# Keys moved into filters

A query is a scan with the key condition moved into the filter.  The two are compiled to different
expressions, with different placeholders, and a query tries its key condition before a page is cut and
its filter after that; where pages are not cut, this makes no difference.

* `Fields.keeps_union` — fields that are merged into a filter keep what both of them keep;
* `MemoryStore.query_page_eq` — the one page of a query;
* `Repository.query_eq_scan` — the answer to a query.
-/

namespace RecordStore

namespace Fields

variable {key filter : Fields}

/-- Merged fields that have no name in common hold together. -/
theorem hold_union_iff (h : ∀ name ∈ key.keys, name ∉ filter.keys) (item : Item) :
    Hold (key.union filter) item ↔ key.Hold item ∧ filter.Hold item := by
  have hmem : ∀ entry, entry ∈ (key.union filter).entries ↔
      entry ∈ filter.entries ∨ entry ∈ key.entries := by
    intro entry
    obtain ⟨name, d⟩ := entry
    rw [key.mem_entries_union_iff]
    refine or_congr_right (and_iff_right_of_imp ?_)
    intro hentry
    exact Dict.get?_eq_none_iff.mpr (h name (List.mem_map.mpr ⟨_, hentry, rfl⟩))
  unfold Hold
  simp only [hmem, or_imp, forall_and]
  exact and_comm

/-- Merged fields are proper if both are. -/
theorem isProper_union (hkey : key.IsProper) (hfilter : filter.IsProper) :
    IsProper (key.union filter) := by
  intro entry hentry
  obtain ⟨name, d⟩ := entry
  rcases (key.mem_entries_union_iff filter).mp hentry with hmem | ⟨_, hmem⟩
  · exact hfilter _ hmem
  · exact hkey _ hmem

/-- **Fields that are merged into a filter** keep what both of them keep. -/
theorem keeps_union (h : ∀ name ∈ key.keys, name ∉ filter.keys) (hide : Bool) (item : Item) :
    keeps (key.union filter) hide item = (decide (key.Hold item) && filter.keeps hide item) := by
  unfold keeps
  rw [← Bool.and_assoc, ← Bool.decide_and]
  exact congrArg (· && _) (decide_eq_decide.mpr (hold_union_iff h item))

end Fields

/-- There is a key condition, if there is a key. -/
theorem Expressions.keyCondition_forQuery_ne_none {key : Fields} (h : key.entries ≠ [])
    (filter : Option Fields) : (forQuery key filter).keyCondition ≠ none := by
  change ((Clause.conditionText none (some key)).run .empty).1 ≠ none
  rw [Clause.conditionText_of_ne_nil none h]
  exact Option.some_ne_none _

/-- The scan that a query is, with its key in the filter. -/
def Query.toScan (q : Query) : Scan :=
  ⟨some (q.key.union (q.filter.getD .empty)), q.index, q.limit, q.start, q.recursive, q.filterDeleted⟩

/-- A read that is not bounded keeps what matches its key and passes its filter, on one page. -/
theorem Table.pageOf_candidates (t : Table) (ordering : List String) (forward : Bool)
    (key keep : Item → Bool) :
    pageOf ordering none keep (t.candidates ordering forward key none) =
      ⟨(t.inOrder ordering forward).filter fun item => key item && keep item, none⟩ := by
  have hall : ∀ item, isBeyond ordering forward none item = true := fun _ => rfl
  rw [pageOf_whole (by simp), candidates, List.filter_filter, List.filter_filter]
  refine congrArg (Page.mk · none) (List.filter_congr ?_)
  intro item _
  rw [hall, Bool.and_true, Bool.and_comm]

namespace MemoryStore

variable {s : MemoryStore} {q : Query}

/-- **The one page of a query** that is not bounded is that of the scan with its key in the filter, and
the two fail alike. -/
theorem query_page_eq (hpageSize : s.pageSize = none) (hlimit : q.limit = none)
    (hforward : q.forward = true) (hne : q.key.entries ≠ []) (hkey : q.key.IsProper)
    (hfilter : (q.filter.getD .empty).IsProper)
    (hapart : ∀ name ∈ q.key.keys, name ∉ (q.filter.getD .empty).keys) (table : String)
    (default : Bool) :
    s.query ((q.request table default).resume none) =
      s.scan ((q.toScan.request table default).resume none) := by
  have hquery := query_request_eq ⟨hkey, Expressions.keyCondition_forQuery_ne_none hne _, hfilter⟩
    table default s none none
  have hscan := scan_request_eq (q := q.toScan) (Fields.isProper_union hkey hfilter) table default s
    none none
  have hunbounded : { q with limit := none } = q := by rw [← hlimit]
  have hunbounded' : { q.toScan with limit := none } = q.toScan := by
    rw [← hlimit]
    rfl
  rw [hunbounded] at hquery
  rw [hunbounded'] at hscan
  rw [hquery, hscan, hpageSize, hforward]
  change _ = (do
    let t ← s.table table
    let ordering ← t.definition.ordering q.index
    return Table.pageOf ordering none
      (Fields.keeps (q.key.union (q.filter.getD .empty)) (q.filterDeleted.getD default))
      (t.candidates ordering true (fun _ => true) none))
  have hkeeps := Fields.keeps_union hapart (q.filterDeleted.getD default)
  simp only [tighter, Table.pageOf_candidates, hkeeps, Bool.true_and]

/-- The page of an unbounded scan is the last one. -/
theorem cursor_of_scan (hpageSize : s.pageSize = none) {q : Scan} (hlimit : q.limit = none)
    {table : String} {default : Bool} {page : Page Item}
    (h : s.scan ((q.request table default).resume none) = .ok page) : page.cursor = none := by
  have hunbounded : { q with limit := none } = q := by rw [← hlimit]
  rcases (paged_scan q table default).pages s with ⟨fault, hfault⟩ | ⟨keep, t, ordering, _, _, hpage⟩
  · have hfails := hfault none none none
    rw [hunbounded, ← hpageSize, h] at hfails
    cases hfails
  · have hwhole := hpage none none none
    rw [hunbounded, ← hpageSize, h, hpageSize] at hwhole
    rw [Except.ok.inj hwhole, tighter, Table.pageOf_candidates]

end MemoryStore

namespace Repository

/-- **A query is a scan with the key condition moved into the filter**, if neither of them is bounded,
the key and the filter have no field in common, and the query goes forward: the answers are the same, and
so are the failures.  It does not matter whether one of them asks for all pages. -/
theorem query_eq_scan {config : Config} {s : MemoryStore} {q : Query} {budget : Nat}
    (hpageSize : s.pageSize = none) (hlimit : q.limit = none) (hstart : q.start = none)
    (hforward : q.forward = true) (hne : q.key.entries ≠ []) (hkey : q.key.IsProper)
    (hfilter : (q.filter.getD .empty).IsProper)
    (hapart : ∀ name ∈ q.key.keys, name ∉ (q.filter.getD .empty).keys) (hbudget : budget ≠ 0)
    (recursive : Bool) :
    ((inMemory config).query budget q).run s =
      ((inMemory config).scan budget { q.toScan with recursive }).run s := by
  obtain ⟨key, filter, index, limit, forward, start, recursive', filterDeleted⟩ := q
  obtain rfl : start = none := hstart
  let q : Query := ⟨key, filter, index, limit, forward, none, recursive', filterDeleted⟩
  let page := s.scan ((q.toScan.request config.table config.filterDeleted).resume none)
  have hpages := MemoryStore.query_page_eq (q := q) hpageSize hlimit hforward hne hkey hfilter hapart
    config.table config.filterDeleted
  have hquery : ((inMemory config).fetchQuery q none).run s = (page, s) := congrArg (·, s) hpages
  have hscan : ((inMemory config).fetchScan { q.toScan with recursive } none).run s = (page, s) := rfl
  have hlast : ∀ p, page = .ok p → p.cursor = none := fun p h =>
    MemoryStore.cursor_of_scan (q := q.toScan) hpageSize hlimit h
  have hqueried := Page.run_collect_of_last hquery hlast hbudget recursive'
  have hscanned := Page.run_collect_of_last hscan hlast hbudget recursive
  exact (run_collect hqueried).trans (run_collect hscanned).symm

/-- The first records of that kind, in the order of their keys. -/
def earlyNotes : Query :=
  { Query.ofKey (.ofList [("kind", .equals (.string "todo"))]) with
    filter := some (.ofList [("target", .lessOrEqual (.string "b"))])
    index := some "byKind" }

/-- A query for two of the three records, and the scan that it is. -/
theorem query_eq_scan_earlyNotes :
    let answer := ((inMemory { table := "notes" }).query 1 earlyNotes).run notes.unbounded
    answer = ((inMemory { table := "notes" }).scan 1 { earlyNotes.toScan with recursive := true }).run
        notes.unbounded ∧
      answer.1.map (fun answers => answers.items.map Entity.target) = .ok ["a", "b"] := by
  have hkey : earlyNotes.key.IsProper := by decide
  have hfilter : (earlyNotes.filter.getD .empty).IsProper := by decide
  refine ⟨query_eq_scan rfl rfl rfl rfl (by decide) hkey hfilter (by decide) (by decide) true, ?_⟩
  have hpage : notes.unbounded.query (earlyNotes.request "notes" true) =
      .ok ⟨[note "a" "todo", note "b" "todo"], none⟩ :=
    (MemoryStore.query_request_eq ⟨hkey, by decide, hfilter⟩ "notes" true notes.unbounded none
      none).trans (by decide +kernel)
  have hfetch : ((inMemory { table := "notes" }).fetchQuery earlyNotes none).run notes.unbounded =
      (.ok ⟨[note "a" "todo", note "b" "todo"], none⟩, notes.unbounded) := congrArg (·, _) hpage
  have hanswer := run_collect (r := inMemory { table := "notes" })
    (Page.run_collect_of_last hfetch (by simp) Nat.one_ne_zero false)
  exact congrArg (fun run => run.1.map fun answers => answers.items.map Entity.target) hanswer

end Repository

end RecordStore
