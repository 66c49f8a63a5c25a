import RecordStore.Proofs.Store.Reading
import RecordStore.Repository.Plan

/-!
# The pages of queries and scans

What the bound of a page and its start have to do with the answer to a request: they choose the part
of the records that the page takes, and they do not matter to whether the request can be answered.

The clause that leaves out marked records is added to a filter as text, after compilation.  It stands
apart from whatever the filter says, because a compiled filter is a conjunction of closed members, and
its alias is the one that the filter has for the mark, or a new one.

* `Expressions.excludeDeleted_spec` — what the added clause changes in a request, and what it leaves
  alone;
* `MemoryStore.query_request_eq`, `MemoryStore.scan_request_eq` — every page of a request that can be
  read;
* `MemoryStore.Paged` — what queries and scans have in common.
-/

namespace RecordStore

namespace Clause

open Condition

/-- One more member of an expression is one more member of its conjunction. -/
theorem conjoin_joined (cs : List Condition) (c : Condition) :
    some (Expressions.conjoin (joined cs) c.text) = joined (cs ++ [c]) := by
  cases cs with
  | nil => rfl
  | cons d cs =>
      have happend := String.intercalate_append_of_ne_nil (s := " AND ")
        (l := (d :: cs).map Condition.text) (m := [c.text]) (by simp) (by simp)
      rw [String.intercalate_singleton] at happend
      simp only [joined, Expressions.conjoin, text, List.map_append, List.map_cons, List.map_nil,
        List.isEmpty_cons, List.cons_append] at happend ⊢
      rw [happend]
      rfl

end Clause

/-- Whether fields hold of a record, and the record is not left out for its mark. -/
def Fields.keeps (fields : Fields) (hide : Bool) (item : Item) : Bool :=
  decide (fields.Hold item) && !(hide && item.contains Attribute.deletedAt)

namespace Expressions

/-- What leaving out marked records changes in a request: the aliases and placeholders that it has
still stand for the same, the mark has an alias, and the filter has one more clause. -/
theorem excludeDeleted_spec {e : Expressions}
    (h : ∀ k, e.context.names.get? k = some Attribute.deletedAt → IsLabel '#' k) :
    ∃ a, e.excludeDeleted.context.Names a Attribute.deletedAt ∧
      e.context.Within e.excludeDeleted.context ∧
      e.excludeDeleted.keyCondition = e.keyCondition ∧
      e.excludeDeleted.filter = some (conjoin e.filter (Condition.absent [a]).text) := by
  let names : AliasTable := e.names.getD .empty
  have hname := Naming.get?_aliasOf names Attribute.deletedAt
  refine ⟨(Naming.aliasOf names Attribute.deletedAt).1, ⟨?_, hname⟩, ⟨?_, fun k v hk => hk⟩, rfl, rfl⟩
  · exact Naming.isLabel_aliasOf h
  · intro k n hk
    exact Naming.get?_aliasOf_of_get? hk Attribute.deletedAt

/-- The filter of a request that leaves out marked records tests for that as well. -/
theorem tests_excludeDeleted {e : Expressions} (h : e.context.Labelled) {fields : Fields}
    (hfilter : Spells e.excludeDeleted.context e.filter fields) (hproper : fields.IsProper) :
    e.excludeDeleted.Tests e.excludeDeleted.filter fun item =>
      decide (fields.Hold item) && !item.contains Attribute.deletedAt := by
  obtain ⟨a, hname, _, _, hslot⟩ := excludeDeleted_spec fun k => h.1 k _
  obtain ⟨cs, hjoined, hdecide⟩ := hfilter.1 hproper
  have habsent := (Condition.Decides.absent hname)
  have hall := hdecide.append (Condition.DecideAll.singleton habsent rfl)
  have hdecides : e.excludeDeleted.Decides e.excludeDeleted.filter fun item =>
      fields.Hold item ∧ item.get? Attribute.deletedAt = none := by
    intro item
    rw [hslot, hjoined, Clause.conjoin_joined]
    exact Clause.optionalHolds_joined hall item
  obtain ⟨c, hc, htests⟩ := hdecides.tests
  refine ⟨c, hc, ?_⟩
  intro item
  rw [htests item]
  cases hmark : item.get? Attribute.deletedAt <;> simp [Dict.contains, hmark]

/-- A filter that cannot be read cannot be read with one more clause either. -/
theorem ofText_excludeDeleted {e : Expressions} (h : e.context.Labelled) {text : String}
    (hfilter : e.filter = some text) (hbroken : Condition.Broken text) :
    ∃ more, e.excludeDeleted.filter = some more ∧ ∃ fault, Condition.ofText more = .error fault := by
  obtain ⟨a, hname, _, _, hslot⟩ := excludeDeleted_spec fun k => h.1 k _
  have hspelled : (Condition.absent [a]).Spelled := Path.spelled_singleton hname.isSegment
  refine ⟨_, hslot, ?_⟩
  rw [hfilter]
  exact (hbroken.append rfl hspelled).ofText

/-- The filter of a request, with marked records or without them. -/
theorem tests_filter {e : Expressions} (h : e.context.Labelled) {fields : Fields}
    (hspells : ∀ ctx, e.context.Within ctx → Spells ctx e.filter fields) (hide : Bool)
    (hproper : fields.IsProper) :
    (if hide then e.excludeDeleted else e).Tests (if hide then e.excludeDeleted else e).filter
      (fields.keeps hide) := by
  obtain ⟨_, _, hwithin, _⟩ := excludeDeleted_spec fun k => h.1 k _
  cases hide with
  | true => exact tests_excludeDeleted h (hspells _ hwithin) hproper
  | false =>
      obtain ⟨c, hc, htests⟩ := (decides_of_spells (hspells _ (.refl _)) hproper).tests
      exact ⟨c, hc, fun item => by simp [htests, Fields.keeps]⟩

/-- The filter for fields that are not proper cannot be read, in either case. -/
theorem exists_error_filter {e : Expressions} (h : e.context.Labelled) {fields : Fields}
    (hspells : ∀ ctx, e.context.Within ctx → Spells ctx e.filter fields) (hide : Bool)
    (hproper : ¬ fields.IsProper) :
    ∃ text fault, (if hide then e.excludeDeleted else e).filter = some text ∧
      Condition.ofText text = .error fault := by
  obtain ⟨text, htext, hbroken⟩ := (hspells _ (.refl _)).2 hproper
  cases hide with
  | true =>
      obtain ⟨more, hmore, fault, hfault⟩ := ofText_excludeDeleted h htext hbroken
      exact ⟨more, fault, hmore, hfault⟩
  | false =>
      obtain ⟨fault, hfault⟩ := hbroken.ofText
      exact ⟨text, fault, htext, hfault⟩

end Expressions

/-- A query that can be read asks for something, and its fields are proper. -/
def Query.IsReadable (q : Query) : Prop :=
  q.key.IsProper ∧ (Expressions.forQuery q.key q.filter).keyCondition ≠ none ∧
    (q.filter.getD .empty).IsProper

/-- The key condition of a query spells its key, with marked records or without them. -/
theorem Query.spells_keyCondition (q : Query) (default : Bool) :
    Spells (q.expressions default).context (q.expressions default).keyCondition q.key ∧
      (q.expressions default).keyCondition = (Expressions.forQuery q.key q.filter).keyCondition := by
  obtain ⟨_, _, hwithin, hslot, _⟩ :=
    Expressions.excludeDeleted_spec fun k => (Expressions.labelled_forQuery q.key q.filter).1 k _
  unfold Query.expressions
  cases q.filterDeleted.getD default with
  | false => exact ⟨Expressions.spells_forQuery_key (.refl _), rfl⟩
  | true =>
      rw [if_pos rfl, hslot]
      exact ⟨Expressions.spells_forQuery_key hwithin, rfl⟩

/-- A scan that can be read has proper fields. -/
def Scan.IsReadable (q : Scan) : Prop := (q.filter.getD .empty).IsProper

namespace MemoryStore

section Query

variable {q : Query}

/-- Every page of a query that can be read. -/
theorem query_request_eq (h : q.IsReadable) (table : String) (default : Bool) (s : MemoryStore)
    (limit : Option Nat) (start : Option Cursor) :
    s.query (({ q with limit }.request table default).resume start) = do
      let t ← s.table table
      let ordering ← t.definition.ordering q.index
      return Table.pageOf ordering (tighter limit s.pageSize)
        ((q.filter.getD .empty).keeps (q.filterDeleted.getD default))
        (t.candidates ordering q.forward (fun item => decide (q.key.Hold item)) start) := by
  obtain ⟨hkey, hsome, hfilter⟩ := h
  obtain ⟨hspells, hslot⟩ := q.spells_keyCondition default
  have htests := (Expressions.decides_of_spells hspells hkey).tests
  have hkeep := Expressions.tests_filter (Expressions.labelled_forQuery q.key q.filter)
    (fun _ hctx => Expressions.spells_forQuery_filter hctx) (q.filterDeleted.getD default) hfilter
  rw [← hslot] at hsome
  exact query_eq (r := ({ q with limit }.request table default).resume start) hsome htests hkeep

/-- A query that cannot be read fails, whatever the store and the page. -/
theorem query_request_error (h : ¬ q.IsReadable) (table : String) (default : Bool) :
    ∃ fault, ∀ s limit start,
      MemoryStore.query s (({ q with limit }.request table default).resume start) = .error fault := by
  let request (limit : Option Nat) (start : Option Cursor) : QueryRequest :=
    ({ q with limit }.request table default).resume start
  obtain ⟨hspells, hslot⟩ := q.spells_keyCondition default
  by_cases hkey : q.key.IsProper
  case neg =>
    obtain ⟨text, htext, hbroken⟩ := hspells.2 hkey
    obtain ⟨fault, hfault⟩ := hbroken.ofText
    exact ⟨_, fun s limit start => query_error_of_key (r := request limit start) htext hfault⟩
  case pos =>
    by_cases hnone : (q.expressions default).keyCondition = none
    case pos =>
      exact ⟨_, fun s limit start => query_error_of_key_none (r := request limit start) hnone⟩
    case neg =>
      have hfilter : ¬ (q.filter.getD .empty).IsProper := fun hfilter =>
        h ⟨hkey, hslot ▸ hnone, hfilter⟩
      have htests := (Expressions.decides_of_spells hspells hkey).tests
      obtain ⟨text, fault, htext, hfault⟩ := Expressions.exists_error_filter
        (Expressions.labelled_forQuery q.key q.filter)
        (fun _ hctx => Expressions.spells_forQuery_filter hctx) (q.filterDeleted.getD default) hfilter
      exact ⟨_, fun s limit start =>
        query_error_of_filter (r := request limit start) hnone htests htext hfault⟩

end Query

section Scan

variable {q : Scan}

/-- Every page of a scan that can be read. -/
theorem scan_request_eq (h : q.IsReadable) (table : String) (default : Bool) (s : MemoryStore)
    (limit : Option Nat) (start : Option Cursor) :
    s.scan (({ q with limit }.request table default).resume start) = do
      let t ← s.table table
      let ordering ← t.definition.ordering q.index
      return Table.pageOf ordering (tighter limit s.pageSize)
        ((q.filter.getD .empty).keeps (q.filterDeleted.getD default))
        (t.candidates ordering true (fun _ => true) start) := by
  have hkeep := Expressions.tests_filter (Expressions.labelled_forScan q.filter)
    (fun _ hctx => Expressions.spells_forScan hctx) (q.filterDeleted.getD default) h
  exact scan_eq (r := ({ q with limit }.request table default).resume start) hkeep

/-- A scan that cannot be read fails, whatever the store and the page. -/
theorem scan_request_error (h : ¬ q.IsReadable) (table : String) (default : Bool) :
    ∃ fault, ∀ s limit start,
      MemoryStore.scan s (({ q with limit }.request table default).resume start) = .error fault := by
  obtain ⟨text, fault, htext, hfault⟩ := Expressions.exists_error_filter
    (Expressions.labelled_forScan q.filter) (fun _ hctx => Expressions.spells_forScan hctx)
    (q.filterDeleted.getD default) h
  exact ⟨_, fun s limit start => scan_error_of_filter
    (r := ({ q with limit }.request table default).resume start) htext hfault⟩

end Scan

/-- A read with a limit and a start that goes along a table or index through the records that match a
key: either it fails for a reason of its own, or it takes its pages from these records. -/
def Paged (table : String) (index : Option String) (forward : Bool) (key : Item → Bool)
    (page : MemoryStore → Option Nat → Option Cursor → Except Error (Page Item)) : Prop :=
  (∃ fault, ∀ s limit start, page s limit start = .error fault) ∨
    ∃ keep : Item → Bool, ∀ s limit start, page s limit start = do
      let t ← s.table table
      let ordering ← t.definition.ordering index
      return Table.pageOf ordering (tighter limit s.pageSize) keep
        (t.candidates ordering forward key start)

/-- A query takes its pages from the records that its key holds of. -/
theorem paged_query (q : Query) (table : String) (default : Bool) :
    Paged table q.index q.forward (fun item => decide (q.key.Hold item)) fun s limit start =>
      s.query (({ q with limit }.request table default).resume start) := by
  by_cases h : q.IsReadable
  · exact .inr ⟨_, query_request_eq h table default⟩
  · exact .inl (query_request_error h table default)

/-- A scan takes its pages from all records. -/
theorem paged_scan (q : Scan) (table : String) (default : Bool) :
    Paged table q.index true (fun _ => true) fun s limit start =>
      s.scan (({ q with limit }.request table default).resume start) := by
  by_cases h : q.IsReadable
  · exact .inr ⟨_, scan_request_eq h table default⟩
  · exact .inl (scan_request_error h table default)

/-- In one store, the pages of a read fail alike, whatever the bound and the start, or they are parts
of the same records. -/
theorem Paged.pages {table : String} {index : Option String} {forward : Bool} {key : Item → Bool}
    {page : MemoryStore → Option Nat → Option Cursor → Except Error (Page Item)}
    (h : Paged table index forward key page) (s : MemoryStore) :
    (∃ fault, ∀ limit pageSize start, page { s with pageSize } limit start = .error fault) ∨
      ∃ keep t ordering, s.table table = .ok t ∧ t.definition.ordering index = .ok ordering ∧
        ∀ limit pageSize start, page { s with pageSize } limit start =
          .ok (Table.pageOf ordering (tighter limit pageSize) keep
            (t.candidates ordering forward key start)) := by
  rcases h with ⟨fault, hfault⟩ | ⟨keep, hpage⟩
  · exact .inl ⟨fault, fun _ _ _ => hfault _ _ _⟩
  · have htable : ∀ pageSize, MemoryStore.table { s with pageSize } table = s.table table :=
      fun _ => rfl
    cases ht : s.table table with
    | error fault =>
        exact .inl ⟨fault, fun _ _ _ => by rw [hpage, htable, ht]; rfl⟩
    | ok t =>
        cases hordering : t.definition.ordering index with
        | error fault =>
            refine .inl ⟨fault, ?_⟩
            intro _ _ _
            rw [hpage, htable, ht]
            simp only [hordering, bind, Except.bind]
        | ok ordering =>
            refine .inr ⟨keep, t, ordering, rfl, hordering, ?_⟩
            intro _ _ _
            rw [hpage, htable, ht]
            simp only [hordering, bind, Except.bind, pure, Except.pure]

end MemoryStore

end RecordStore
