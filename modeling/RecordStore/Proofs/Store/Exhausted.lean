import RecordStore.Proofs.Store.AllRecords

/-!
# What a missing cursor says

A page without a cursor is the last one.  The cursor is made from the last record that the page looked
at, so it is missing in two cases: no record is left behind that one, or the page looked at no record.
A store does not bound its pages to no record, but a request may do so; its page is empty and has no
cursor, whatever is stored.  In every other request a missing cursor means that all records were looked
at.

* `Read.ahead`, `Read.lookedAt` — the records that a read has before it, and those that one page takes;
* `Read.evaluates_lookedAt` — a page tries the filter on each record that it looks at;
* `Read.lookedAt_of_last`, `Read.ahead_of_cursor` — pages without a cursor and with one;
* `page_ends_where_records_end` — what a page has looked at, with a cursor and without one;
* `not_exhausted_without_cursor` — the request for no record.
-/

namespace RecordStore

/-- The condition in a slot of a request gives an answer for a record. -/
def Expressions.Evaluates (e : Expressions) (slot : Option String) (item : Item) : Prop :=
  ∃ holds, Condition.optionalHolds e.context item slot = .ok holds

/-- Tests that succeed give an answer for every member. -/
theorem exists_ok_of_keepWhere {ε α : Type} {test : α → Except ε Bool} {xs ys : List α}
    (h : keepWhere test xs = .ok ys) : ∀ x ∈ xs, ∃ b, test x = .ok b := by
  induction xs generalizing ys with
  | nil => exact fun x hx => absurd hx List.not_mem_nil
  | cons x rest ih =>
      obtain ⟨keep, hkeep, h⟩ := Condition.bind_eq_ok h
      obtain ⟨more, hmore, _⟩ := Condition.bind_eq_ok h
      exact List.forall_mem_cons.mpr ⟨⟨keep, hkeep⟩, ih hmore⟩

/-- Every order is that of an index, followed by the key. -/
theorem TableDefinition.exists_indexAttributes {definition : TableDefinition} {index : Option String}
    {names : List String} (h : definition.ordering index = .ok names) :
    ∃ attributes, definition.indexAttributes index = some attributes ∧
      names = ordering.appendNew attributes definition.key.attributes := by
  cases hindex : definition.indexAttributes index with
  | some attributes =>
      rw [ordering_eq hindex] at h
      exact ⟨attributes, rfl, (Except.ok.inj h).symm⟩
  | none =>
      cases index with
      | none => cases hindex
      | some name =>
          have hmissing : definition.indexes.get? name = none := Option.map_eq_none_iff.mp hindex
          simp [ordering, hmissing] at h

namespace Read

/-- The records of a table that a read has before it from a cursor on: what matches the key condition and
lies beyond the cursor, in the order of the read. -/
def ahead (r : Read) (t : Table) (ordering : List String) (start : Option Cursor) : List Item :=
  t.candidates ordering r.forward (r.expressions.passes r.keyCondition) start

/-- The records that its first page looks at. -/
def lookedAt (r : Read) (s : MemoryStore) (t : Table) (ordering : List String) : List Item :=
  takeUpTo (tighter r.limit s.pageSize) (r.ahead t ordering r.start)

variable {r : Read} {s : MemoryStore} {t : Table} {ordering : List String} {page : Page Item}

/-- **A page tries the filter** on each record that it looks at. -/
theorem evaluates_lookedAt (h : r.fetch s r.start = .ok page) (ht : s.table r.table = .ok t)
    (hordering : t.definition.ordering r.index = .ok ordering) :
    ∀ item ∈ r.lookedAt s t ordering, r.expressions.Evaluates r.expressions.filter item := by
  obtain ⟨t', c, d, ht', hc, hd, h⟩ := exists_read h
  obtain rfl := Except.ok.inj (ht.symm.trans ht')
  rw [Table.read_eq_inOrder] at h
  obtain ⟨ordering', hordering', h⟩ := Condition.bind_eq_ok h
  obtain rfl := Except.ok.inj (hordering.symm.trans hordering')
  obtain ⟨matching, hmatching, h⟩ := Condition.bind_eq_ok h
  obtain ⟨items, hitems, _⟩ := Condition.bind_eq_ok h
  obtain rfl := filter_of_keepWhere (MemoryStore.passes_of_tests hc) hmatching
  intro item hitem
  obtain ⟨holds, hholds⟩ := exists_ok_of_keepWhere hitems item hitem
  exact ⟨holds, MemoryStore.optionalHolds_of_tests hd hholds⟩

/-- What a read has before it, in terms of the table. -/
theorem mem_ahead (hs : s.Reachable) (ht : s.table r.table = .ok t) {attributes : List String}
    (hordering : ordering = TableDefinition.ordering.appendNew attributes t.definition.key.attributes)
    {start : Option Cursor} {item : Item} :
    item ∈ r.ahead t ordering start ↔
      item ∈ t.records.values ∧ item.hasAll attributes = true ∧
        Condition.optionalHolds r.expressions.context item r.keyCondition = .ok true ∧
        Table.isBeyond ordering r.forward start item = true := by
  rw [ahead, Table.mem_candidates, Expressions.passes_iff, and_assoc]
  refine and_congr_right fun hstored => ?_
  rw [hordering, (hs.filed_table ht).hasAll_ordering hstored]

/-- A request for no record gets an empty page without a cursor. -/
theorem page_of_limit_zero {start : Option Cursor} (h : r.fetch s start = .ok page)
    (hlimit : r.limit = some 0) : page = ⟨[], none⟩ := by
  have hlooked : ∀ items : List Item, takeUpTo (tighter (some 0) s.pageSize) items = [] := by
    intro items
    cases s.pageSize <;> simp [tighter, takeUpTo]
  obtain ⟨_, _, _, _, hpage⟩ := fetch_eq h
  rw [hpage, hlimit, Table.pageOf, hlooked]
  simp

/-- A page without a cursor has looked at all records, if it may look at any. -/
theorem lookedAt_of_last (hs : s.Reachable) (hlimit : r.limit ≠ some 0)
    (h : r.fetch s r.start = .ok page) (ht : s.table r.table = .ok t)
    (hordering : t.definition.ordering r.index = .ok ordering) (hcursor : page.cursor = none) :
    r.lookedAt s t ordering = r.ahead t ordering r.start := by
  have hpage := Followed.fetch_eq h ht hordering
  rcases Table.pageOf_cases (Followed.bound_ne_zero hs hlimit) (r.ahead t ordering r.start) with
    ⟨hlooked, _⟩ | ⟨_, _, _, _, _, _, hcut⟩
  · exact hlooked
  · rw [ahead, ← hpage, hcursor] at hcut
    cases hcut

/-- A page with a cursor has left records out, and they are what lies beyond the cursor. -/
theorem ahead_of_cursor (hs : s.Reachable) (h : r.fetch s r.start = .ok page)
    (ht : s.table r.table = .ok t) (hordering : t.definition.ordering r.index = .ok ordering)
    {c : Cursor} (hcursor : page.cursor = some c) :
    ∃ rest, rest ≠ [] ∧ r.ahead t ordering r.start = r.lookedAt s t ordering ++ rest ∧
      ∀ kinds, s.ComparableBy kinds r.table r.index r.start → r.ahead t ordering (some c) = rest := by
  have hlimit : r.limit ≠ some 0 := by
    intro hlimit
    rw [page_of_limit_zero h hlimit] at hcursor
    cases hcursor
  have hpage := Followed.fetch_eq h ht hordering
  rcases Table.pageOf_cases (Followed.bound_ne_zero hs hlimit) (r.ahead t ordering r.start) with
    ⟨_, hwhole⟩ | ⟨before, last, after, hsplit, hafter, hlooked, hcut⟩
  · rw [ahead, ← hpage, hcursor] at hwhole
    cases hwhole
  · rw [ahead, ← hpage, hcursor] at hcut
    obtain rfl := Option.some.inj hcut
    refine ⟨after, hafter, ?_, ?_⟩
    · rw [hsplit, List.append_cons]
      exact congrArg (· ++ after) hlooked.symm
    · intro kinds hkinds
      obtain ⟨hordered, hstart⟩ := hkinds t ordering ht hordering
      exact Table.candidates_resume (hs.filed_table ht) hordering hordered hstart hsplit

end Read

/-- **Where a page ends.**  Take any query or scan that succeeds, of any store that can be reached.  The
page tries the filter on each record that it looks at, and it gives those that pass.  A request for no
record gives an empty page without a cursor.  In any other request a page without a cursor has looked at
all that matches the key condition and lies beyond the start.  A page with a cursor has left records out,
and they are what lies beyond the cursor, if each attribute of the order keeps to keys of one kind. -/
theorem page_ends_where_records_end {s : MemoryStore} (hs : s.Reachable) {r : Read} {page : Page Item}
    (h : r.fetch s r.start = .ok page) :
    ∃ t attributes, s.table r.table = .ok t ∧ t.definition.indexAttributes r.index = some attributes ∧
      let ordering := TableDefinition.ordering.appendNew attributes t.definition.key.attributes
      let looked := r.lookedAt s t ordering
      (∀ start item, item ∈ r.ahead t ordering start ↔
        item ∈ t.records.values ∧ item.hasAll attributes = true ∧
          Condition.optionalHolds r.expressions.context item r.keyCondition = .ok true ∧
          Table.isBeyond ordering r.forward start item = true) ∧
      (∀ item ∈ looked, r.expressions.Evaluates r.expressions.filter item) ∧
      page.items = looked.filter (r.expressions.passes r.expressions.filter) ∧
      (r.limit = some 0 → page = ⟨[], none⟩) ∧
      (r.limit ≠ some 0 → page.cursor = none → looked = r.ahead t ordering r.start) ∧
      ∀ c, page.cursor = some c → ∃ rest, rest ≠ [] ∧ r.ahead t ordering r.start = looked ++ rest ∧
        ∀ kinds, s.ComparableBy kinds r.table r.index r.start → r.ahead t ordering (some c) = rest := by
  obtain ⟨t, ordering, ht, hordering, hpage⟩ := Read.fetch_eq h
  obtain ⟨attributes, hattributes, hnames⟩ := TableDefinition.exists_indexAttributes hordering
  refine ⟨t, attributes, ht, hattributes, ?_⟩
  rw [← hnames]
  exact ⟨fun _ _ => Read.mem_ahead hs ht hnames, Read.evaluates_lookedAt h ht hordering,
    congrArg Page.items hpage, Read.page_of_limit_zero h,
    fun hlimit hcursor => Read.lookedAt_of_last hs hlimit h ht hordering hcursor,
    fun _ hcursor => Read.ahead_of_cursor hs h ht hordering hcursor⟩

namespace MemoryStore

theorem reachable_posts : posts.Reachable := by
  have hempty := Reachable.empty.createTable ⟨"posts", ⟨"source", some "target"⟩, .empty⟩
  exact ((hempty.run_put "posts" (post "b")).run_put "posts" (post "d")).withPageSize 1

/-- A scan that asks for no record. -/
def scanNoPost : Read := .scan ⟨"posts", none, .empty, some 0, none⟩

end MemoryStore

open MemoryStore in
/-- The first page stops at the first of two records, and the second record lies beyond its cursor. -/
theorem page_ends_where_records_end_posts :
    posts.Reachable ∧
      scanPosts.fetch posts scanPosts.start = .ok ⟨[post "b"], some ⟨post "b"⟩⟩ ∧
      ∃ t ordering, posts.table "posts" = .ok t ∧ scanPosts.ahead t ordering (some ⟨post "b"⟩) ≠ [] := by
  have hfetch : scanPosts.fetch posts scanPosts.start = .ok ⟨[post "b"], some ⟨post "b"⟩⟩ := by
    decide +kernel
  have hkinds : posts.ComparableBy (fun _ => .text) "posts" none none := by decide +kernel
  obtain ⟨t, attributes, ht, _, _, _, _, _, _, hmore⟩ :=
    page_ends_where_records_end reachable_posts hfetch
  obtain ⟨rest, hrest, _, hahead⟩ := hmore _ rfl
  exact ⟨reachable_posts, hfetch, t, _, ht, (hahead _ hkinds).trans_ne hrest⟩

open MemoryStore in
/-- **A page without a cursor can leave out every record**: that of a request for no record does. -/
theorem not_exhausted_without_cursor :
    ¬ ∀ (s : MemoryStore) (r : Read) (t : Table) (attributes : List String) (page : Page Item),
      s.Reachable → s.table r.table = .ok t → t.definition.indexAttributes r.index = some attributes →
        r.fetch s r.start = .ok page → page.cursor = none →
          ∀ item ∈ t.records.values, item.hasAll attributes = true → r.Matches item →
            Table.isBeyond
              (TableDefinition.ordering.appendNew attributes t.definition.key.attributes)
              r.forward r.start item = true → item ∈ page.items := by
  intro h
  have htable : ∃ t ∈ (posts.table "posts").toOption, post "b" ∈ t.records.values := by
    decide +kernel
  have hfetch : scanNoPost.fetch posts scanNoPost.start = .ok ⟨[], none⟩ := by decide +kernel
  obtain ⟨t, ht, hpost⟩ := htable
  have hmem := h posts scanNoPost t [] _ reachable_posts (mem_toOption.mp ht) rfl hfetch rfl (post "b")
    hpost rfl ⟨rfl, rfl⟩ rfl
  exact absurd hmem List.not_mem_nil

end RecordStore
