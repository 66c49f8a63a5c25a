import RecordStore.Proofs.Compile.Requests
import RecordStore.Store.Memory

/-!
# Reads whose tests never fail

A compiled condition has an answer on every record, so a read with compiled conditions either fails
for a reason that no record has part in, or is what its answers make of the table: the records that
match, in order, beyond the cursor, up to the limit.

* `Table.tests_of_conditionOf?` — a condition is tried with the result of its text;
* `Expressions.Tests` — a slot of a request tests every record for a property;
* `Table.pageOf` — the page that some answers lead to;
* `MemoryStore.query_eq`, `MemoryStore.scan_eq` — reads in terms of it.
-/

namespace RecordStore

/-- Tests that never fail keep what passes them. -/
theorem keepWhere_eq_filter {ε α : Type} {test : α → Except ε Bool} {p : α → Bool}
    (h : ∀ x, test x = .ok (p x)) (xs : List α) : keepWhere test xs = .ok (xs.filter p) := by
  induction xs with
  | nil => rfl
  | cons x xs ih =>
      rw [keepWhere, h x, ih]
      cases hx : p x <;> simp [hx, bind, Except.bind, pure, Except.pure]

/-- A condition that is read from a text is tried with the result that the text has. -/
theorem Table.tests_of_conditionOf? {text : Option String} {c : Option Condition}
    (h : MemoryStore.conditionOf? text = .ok c) (ctx : Context) (item : Item) :
    tests ctx c item = (Condition.optionalHolds ctx item text).mapError .expression := by
  cases text with
  | none =>
      obtain rfl := Except.ok.inj h
      rfl
  | some text =>
      rw [Condition.optionalHolds, Condition.textHolds]
      rw [MemoryStore.conditionOf?] at h
      cases htext : Condition.ofText text with
      | error fault =>
          rw [htext] at h
          cases h
      | ok condition =>
          rw [htext] at h
          obtain rfl := Except.ok.inj h
          rfl

namespace Expressions

/-- A slot of a request can be read and tests every record for a property. -/
def Tests (e : Expressions) (slot : Option String) (p : Item → Bool) : Prop :=
  ∃ c, MemoryStore.conditionOf? slot = .ok c ∧ ∀ item, Table.tests e.context c item = .ok (p item)

/-- A slot that decides a property tests for it. -/
theorem Decides.tests {e : Expressions} {slot : Option String} {P : Item → Prop} [DecidablePred P]
    (h : e.Decides slot P) : e.Tests slot fun item => decide (P item) := by
  have hread : ∃ c, MemoryStore.conditionOf? slot = .ok c := by
    cases slot with
    | none => exact ⟨none, rfl⟩
    | some text =>
        obtain ⟨_, hsome, _⟩ := h .empty
        obtain ⟨c, hc, _⟩ := Condition.bind_eq_ok hsome
        exact ⟨some c, by rw [MemoryStore.conditionOf?, hc]; rfl⟩
  obtain ⟨c, hc⟩ := hread
  refine ⟨c, hc, fun item => ?_⟩
  obtain ⟨b, hb, hP⟩ := h item
  have hanswer : b = decide (P item) := by simp [← hP]
  rw [Table.tests_of_conditionOf? hc, hb, hanswer]
  rfl

end Expressions

namespace Table

/-- The records that a read of a table goes through: those that match a key, beyond a cursor. -/
def candidates (t : Table) (ordering : List String) (forward : Bool) (key : Item → Bool)
    (start : Option Cursor) : List Item :=
  ((t.inOrder ordering forward).filter key).filter (isBeyond ordering forward start)

/-- The page of some records that can be looked at, up to a bound. -/
def pageOf (ordering : List String) (bound : Option Nat) (keep : Item → Bool)
    (candidates : List Item) : Page Item :=
  let looked := takeUpTo bound candidates
  { items := looked.filter keep
    cursor :=
      if looked.length < candidates.length then
        looked.getLast?.map fun last => ⟨Item.project last ordering⟩
      else none }

/-- A read whose tests never fail. -/
theorem read_eq {t : Table} {pageSize : Option Nat} {plan : ReadPlan} {key keep : Item → Bool}
    (hkey : ∀ item, tests plan.context plan.keyCondition item = .ok (key item))
    (hkeep : ∀ item, tests plan.context plan.filter item = .ok (keep item)) :
    t.read pageSize plan = (t.definition.ordering plan.index).map fun ordering =>
      pageOf ordering (tighter plan.limit pageSize) keep
        (t.candidates ordering plan.forward key plan.start) := by
  rw [read_eq_inOrder]
  cases t.definition.ordering plan.index with
  | error e => rfl
  | ok ordering =>
      simp only [keepWhere_eq_filter hkey, keepWhere_eq_filter hkeep, bind, Except.bind, pure,
        Except.pure, Except.map]
      rfl

end Table

namespace MemoryStore

variable {s : MemoryStore} {key keep : Item → Bool}

/-- A query whose key condition is missing fails. -/
theorem query_error_of_key_none {r : QueryRequest} (h : r.expressions.keyCondition = none) :
    s.query r = .error (.argument .noKeyCondition) := by
  rw [query, queryBy, h]

/-- A query whose key condition cannot be read fails. -/
theorem query_error_of_key {r : QueryRequest} {text : String} {fault : ExpressionFault}
    (h : r.expressions.keyCondition = some text) (htext : Condition.ofText text = .error fault) :
    s.query r = .error (.expression fault) := by
  rw [query, queryBy, h]
  simp [conditionOf?, htext, Except.map, Except.mapError, bind, Except.bind]

/-- A query whose filter cannot be read fails, once its key condition is read. -/
theorem query_error_of_filter {r : QueryRequest} {text : String} {fault : ExpressionFault}
    (hsome : r.expressions.keyCondition ≠ none)
    (hkey : r.expressions.Tests r.expressions.keyCondition key)
    (h : r.expressions.filter = some text) (htext : Condition.ofText text = .error fault) :
    s.query r = .error (.expression fault) := by
  obtain ⟨c, hc, _⟩ := hkey
  have hfilter : conditionOf? r.expressions.filter = .error (.expression fault) := by
    simp [conditionOf?, h, htext, Except.map, Except.mapError]
  cases hslot : r.expressions.keyCondition with
  | none => exact absurd hslot hsome
  | some keyText =>
      rw [hslot] at hc
      rw [query, queryBy, hslot]
      simp only [hc, hfilter, bind, Except.bind]

/-- A query whose tests never fail. -/
theorem query_eq {r : QueryRequest} (hsome : r.expressions.keyCondition ≠ none)
    (hkey : r.expressions.Tests r.expressions.keyCondition key)
    (hkeep : r.expressions.Tests r.expressions.filter keep) :
    s.query r = do
      let t ← s.table r.table
      let ordering ← t.definition.ordering r.index
      return Table.pageOf ordering (tighter r.limit s.pageSize) keep
        (t.candidates ordering r.forward key r.start) := by
  obtain ⟨c, hc, htests⟩ := hkey
  obtain ⟨d, hd, hfilter⟩ := hkeep
  cases hslot : r.expressions.keyCondition with
  | none => exact absurd hslot hsome
  | some text =>
      rw [hslot] at hc
      rw [query, queryBy, hslot]
      simp only [hc, hd, bind, Except.bind]
      cases s.table r.table with
      | error e => rfl
      | ok t =>
          have hread : t.read s.pageSize ⟨r.index, r.expressions.context, c, d, r.limit, r.forward,
              r.start⟩ = _ := Table.read_eq htests hfilter
          refine hread.trans ?_
          dsimp only
          cases t.definition.ordering r.index <;> rfl

/-- A scan whose filter cannot be read fails. -/
theorem scan_error_of_filter {r : ScanRequest} {text : String} {fault : ExpressionFault}
    (h : r.expressions.filter = some text) (htext : Condition.ofText text = .error fault) :
    s.scan r = .error (.expression fault) := by
  simp [scan, scanBy, h, conditionOf?, htext, Except.map, Except.mapError, bind, Except.bind]

/-- A scan whose tests never fail. -/
theorem scan_eq {r : ScanRequest} (hkeep : r.expressions.Tests r.expressions.filter keep) :
    s.scan r = do
      let t ← s.table r.table
      let ordering ← t.definition.ordering r.index
      return Table.pageOf ordering (tighter r.limit s.pageSize) keep
        (t.candidates ordering true (fun _ => true) r.start) := by
  obtain ⟨d, hd, hfilter⟩ := hkeep
  rw [scan, scanBy]
  simp only [hd, bind, Except.bind]
  cases s.table r.table with
  | error e => rfl
  | ok t =>
      have hall (item : Item) : Table.tests r.expressions.context none item = .ok true := rfl
      have hread : t.read s.pageSize ⟨r.index, r.expressions.context, none, d, r.limit, true,
          r.start⟩ = _ := Table.read_eq hall hfilter
      refine hread.trans ?_
      dsimp only
      cases t.definition.ordering r.index <;> rfl

end MemoryStore

end RecordStore
