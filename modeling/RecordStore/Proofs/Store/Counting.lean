import RecordStore.Proofs.Store.Reachable
import RecordStore.Proofs.Store.Writing

/-!
# The number of records after a write

A write under one key leaves all other records, so the number of records changes by what the write puts
there, less what was there.  A write of what was there already changes nothing at all.

* `MemoryStore.WritesAt.count_add` — the number of records before and after;
* `MemoryStore.WritesAt.eq_of_get` — a write that changes nothing;
* `MemoryStore.exists_delete_of_get` — when a record can be removed.
-/

namespace RecordStore

namespace Table

variable {t t' : Table} {key : Item} {found now : Option Item}

/-- A write changes the count by what it takes and what it gives. -/
theorem WritesAt.size_add (h : t.WritesAt t' key now) (hfound : t.get key = .ok found) :
    t'.records.size + found.toList.length = t.records.size + now.toList.length := by
  obtain ⟨_, text, htext, rfl, hframe⟩ := h
  obtain rfl := Except.ok.inj (hfound.symm.trans (get_eq htext))
  exact OrderedDict.size_add_of_frame hframe

/-- Writing what is there already changes nothing. -/
theorem WritesAt.eq_of_get (h : t.WritesAt t' key now) (hfound : t.get key = .ok now) : t' = t := by
  obtain ⟨hdefinition, text, htext, hnow, hframe⟩ := h
  have hrecord := Except.ok.inj (hfound.symm.trans (get_eq htext))
  have hrecords : t'.records = t.records := by
    refine OrderedDict.ext fun n => ?_
    by_cases hn : n = text
    · rw [hn, hnow, hrecord]
    · exact hframe n hn
  obtain ⟨definition, records⟩ := t'
  exact congr (congrArg Table.mk hdefinition) hrecords

end Table

namespace MemoryStore

variable {s s' : MemoryStore} {name : String} {key : Item} {found now : Option Item} {t : Table}

/-- The records of a table are counted. -/
theorem count_eq (h : s.table name = .ok t) : s.count name = .ok t.records.size := by
  rw [count, h]
  rfl

/-- A removal succeeds under every key that can be looked for. -/
theorem exists_delete_of_get (h : s.get name key = .ok found) : ∃ s', s.delete name key = .ok s' := by
  obtain ⟨t, ht, hget⟩ := Condition.bind_eq_ok h
  obtain ⟨text, htext, _⟩ := Table.get_eq_ok hget
  simp only [delete, modifyTable, ht, Table.delete, htext, bind, Except.bind, pure, Except.pure]
  exact ⟨_, rfl⟩

namespace WritesAt

/-- A write is under a key that can be looked for. -/
theorem exists_get (h : s.WritesAt s' name key now) : ∃ found, s.get name key = .ok found := by
  obtain ⟨_, _, t, t', ht, _, _, text, htext, _⟩ := h
  exact ⟨_, (get_eq ht key).trans (Table.get_eq htext)⟩

/-- **The number of records** after a write is that before it, and what the write puts under its key,
less what was there. -/
theorem count_add (h : s.WritesAt s' name key now) (hfound : s.get name key = .ok found) :
    ∃ m n, s.count name = .ok m ∧ s'.count name = .ok n ∧
      n + found.toList.length = m + now.toList.length := by
  obtain ⟨_, _, t, t', ht, ht', hwrites⟩ := h
  rw [get_eq ht] at hfound
  exact ⟨_, _, count_eq ht, count_eq ht', hwrites.size_add hfound⟩

/-- **A write of what was there** changes nothing. -/
theorem eq_of_get (h : s.WritesAt s' name key now) (hfound : s.get name key = .ok now) : s' = s := by
  obtain ⟨hpage, hframe, t, t', ht, ht', hwrites⟩ := h
  rw [get_eq ht] at hfound
  obtain rfl := hwrites.eq_of_get hfound
  have htables : s'.tables = s.tables := by
    refine OrderedDict.ext fun n => Option.ext fun u => ?_
    rw [← table_eq_ok_iff, ← table_eq_ok_iff]
    by_cases hn : n = name
    · rw [hn, ht, ht']
    · rw [hframe n hn]
  obtain ⟨tables, pageSize⟩ := s'
  exact congr (congrArg MemoryStore.mk htables) hpage

end WritesAt

end MemoryStore

end RecordStore
