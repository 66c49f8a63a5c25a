import RecordStore.Proofs.Store.RequestPages

/-!
# Leaving out the records that are marked as deleted

Whether a request can be read has nothing to do with the mark, and neither has what a page looks at.
So a page without marked records is the page with them, less the marked ones.

* `HidesDeleted` — an answer compared with the answer that leaves out marked records;
* `reads_hide_deleted` — every page of every query and scan.
-/

namespace RecordStore

/-- Two answers to a read: either none of them is a page, or the second page goes on from the same
place and holds the records of the first one that are not marked as deleted, in the same order. -/
def HidesDeleted (shown hidden : Except Error (Page Item)) : Prop :=
  (∃ e e', shown = .error e ∧ hidden = .error e') ∨
    ∃ page page', shown = .ok page ∧ hidden = .ok page' ∧ page'.cursor = page.cursor ∧
      page'.items = page.items.filter fun item => !item.contains Attribute.deletedAt

namespace HidesDeleted

/-- A read that goes wrong before it looks at a record goes wrong in both cases. -/
theorem bind {α : Type} {x : Except Error α} {f g : α → Except Error (Page Item)}
    (h : ∀ a, x = .ok a → HidesDeleted (f a) (g a)) : HidesDeleted (x >>= f) (x >>= g) := by
  cases hx : x with
  | error e => exact .inl ⟨e, e, rfl, rfl⟩
  | ok a => exact h a hx

/-- The filter makes no difference to what is looked at. -/
theorem pageOf (ordering : List String) (bound : Option Nat) (fields : Fields)
    (candidates : List Item) :
    HidesDeleted (.ok (Table.pageOf ordering bound (fields.keeps false) candidates))
      (.ok (Table.pageOf ordering bound (fields.keeps true) candidates)) := by
  refine .inr ⟨_, _, rfl, rfl, rfl, ?_⟩
  rw [Table.pageOf, Table.pageOf, List.filter_filter]
  refine List.filter_congr ?_
  intro item _
  simp [Fields.keeps, Bool.and_comm]

end HidesDeleted

namespace MemoryStore

variable (s : MemoryStore) (table : String) (default : Bool)

/-- A query, with marked records and without them. -/
theorem query_hides_deleted (q : Query) :
    HidesDeleted (s.query ({ q with filterDeleted := some false }.request table default))
      (s.query ({ q with filterDeleted := some true }.request table default)) := by
  let shown : Query := { q with filterDeleted := some false }
  let hidden : Query := { q with filterDeleted := some true }
  by_cases h : q.IsReadable
  case pos =>
    have hshown : s.query (shown.request table default) = _ :=
      query_request_eq (q := shown) h table default s q.limit q.start
    have hhidden : s.query (hidden.request table default) = _ :=
      query_request_eq (q := hidden) h table default s q.limit q.start
    change HidesDeleted (s.query (shown.request table default)) (s.query (hidden.request table default))
    rw [hshown, hhidden]
    exact .bind fun t _ => .bind fun ordering _ => .pageOf ordering _ _ _
  case neg =>
    obtain ⟨fault, hfault⟩ := query_request_error (q := shown) h table default
    obtain ⟨fault', hfault'⟩ := query_request_error (q := hidden) h table default
    exact .inl ⟨fault, fault', hfault s q.limit q.start, hfault' s q.limit q.start⟩

/-- A scan, with marked records and without them. -/
theorem scan_hides_deleted (q : Scan) :
    HidesDeleted (s.scan ({ q with filterDeleted := some false }.request table default))
      (s.scan ({ q with filterDeleted := some true }.request table default)) := by
  let shown : Scan := { q with filterDeleted := some false }
  let hidden : Scan := { q with filterDeleted := some true }
  by_cases h : q.IsReadable
  case pos =>
    have hshown : s.scan (shown.request table default) = _ :=
      scan_request_eq (q := shown) h table default s q.limit q.start
    have hhidden : s.scan (hidden.request table default) = _ :=
      scan_request_eq (q := hidden) h table default s q.limit q.start
    change HidesDeleted (s.scan (shown.request table default)) (s.scan (hidden.request table default))
    rw [hshown, hhidden]
    exact .bind fun t _ => .bind fun ordering _ => .pageOf ordering _ _ _
  case neg =>
    obtain ⟨fault, hfault⟩ := scan_request_error (q := shown) h table default
    obtain ⟨fault', hfault'⟩ := scan_request_error (q := hidden) h table default
    exact .inl ⟨fault, fault', hfault s q.limit q.start, hfault' s q.limit q.start⟩

/-- **Leaving out marked records hides exactly them, page by page.**  It makes no read fail and none
succeed, moves no cursor, and takes from each page the records that carry the mark, and no other. -/
theorem reads_hide_deleted :
    (∀ q : Query,
      HidesDeleted (s.query ({ q with filterDeleted := some false }.request table default))
        (s.query ({ q with filterDeleted := some true }.request table default))) ∧
    ∀ q : Scan,
      HidesDeleted (s.scan ({ q with filterDeleted := some false }.request table default))
        (s.scan ({ q with filterDeleted := some true }.request table default)) :=
  ⟨s.query_hides_deleted table default, s.scan_hides_deleted table default⟩

end MemoryStore

end RecordStore
