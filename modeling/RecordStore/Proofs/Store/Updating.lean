import RecordStore.Proofs.Compile.Requests
import RecordStore.Proofs.Store.Writing

/-!
# Fields carried out by a store

An update that was compiled from fields leaves, under its key, the record as it was with the fields
assigned, all at once.  It takes place if the guard holds, every field can be assigned to, and none of
them is an attribute of the key.

* `Expressions.exists_update` — the update of a request, and what it makes of any record;
* `MemoryStore.update_assigns` — what an update that succeeds has stored;
* `MemoryStore.exists_update`, `MemoryStore.update_eq_conditionFailed` — when an update succeeds, and
  how it fails if its guard does not hold.
-/

namespace RecordStore

namespace Clause

variable {ctx : Context} {assignments : List (String × Assignment)} {parts : List Update}

/-- There is something to do if one of the assignments says something. -/
theorem flatten_ne_nil (hdo : List.Forall₂ (fun e u => Do e.1 e.2 u ctx) assignments parts)
    {a : String × Assignment} (ha : a ∈ assignments) (hproper : a.2.IsProper) :
    parts.flatten ≠ [] := by
  obtain ⟨u, hu, hdo⟩ := Compiles.exists_result hdo ha
  intro hnil
  exact hdo.1.mpr hproper (List.flatten_eq_nil_iff.mp hnil u hu)

end Clause

namespace Expressions

variable {fields : Fields} {guard : Option Fields} {e : Expressions}

/-- The update of a request can be read, and makes of a record what the fields say. -/
theorem exists_update (he : forUpdate fields guard = .ok e)
    (hproper : ∃ entry ∈ fields.entries, entry.2.IsProper) :
    ∃ text u, e.update = some text ∧ Update.ofText text = .ok u ∧ ∀ item,
      ((∃ changed, u.apply e.context item = .ok changed) ↔
        ∀ entry ∈ fields.entries, entry.2.CanAssign (item.get? entry.1)) ∧
      ∀ changed, u.apply e.context item = .ok changed →
        ∀ name, changed.get? name = fields.assigned item name := by
  obtain ⟨assignments, hassignments, hslot, _, hcontext⟩ := forUpdate_eq_ok he
  have hupdate := Clause.compiles_updateText assignments .empty Bindings.labelled_empty
  have hguard := Clause.compiles_conditionText (some guardScope) guard _ hupdate.2.1
  obtain ⟨parts, hdo, htext⟩ := hupdate.2.2 e.context (by rw [hcontext]; exact hguard.1)
  obtain ⟨entry, hentry, hsays⟩ := hproper
  obtain ⟨a, ha, _, hassignment⟩ :=
    Compiles.exists_result (Clause.forall₂_assignmentsOf hassignments) hentry
  have hne := Clause.flatten_ne_nil hdo ha ((Clause.isProper_iff hassignment).mp hsays)
  refine ⟨Update.text parts.flatten, parts.flatten, ?_,
    Update.ofText_text hne (Clause.spelled_flatten hdo), Clause.apply_fields hassignments hdo⟩
  rw [hslot, htext, if_neg (List.ne_nil_of_mem ha)]

end Expressions

namespace Update

variable {u : Update} {e : Expressions} {current changed : Item}

/-- A revision succeeds where the guard holds and the update can be carried out. -/
theorem revise_eq_ok_iff : u.revise e current = .ok changed ↔
    Condition.optionalHolds e.context current e.condition = .ok true ∧
      u.apply e.context current = .ok changed := by
  rw [revise]
  cases hholds : Condition.optionalHolds e.context current e.condition with
  | error fault => simp [Except.mapError, bind, Except.bind]
  | ok holds =>
      cases holds with
      | false => simp [Except.mapError, bind, Except.bind]
      | true =>
          cases happly : u.apply e.context current <;>
            simp [Except.mapError, bind, Except.bind]

end Update

namespace MemoryStore

variable {s s' : MemoryStore} {name : String} {key : Item} {fields : Fields} {guard : Option Fields}
  {e : Expressions}

/-- **What an update that succeeds has stored**: the record that its guard held of, with the fields
assigned, under the key that it had. -/
theorem update_assigns (he : Expressions.forUpdate fields guard = .ok e)
    (hproper : ∃ entry ∈ fields.entries, entry.2.IsProper)
    (h : s.update ⟨name, key, e⟩ = .ok s') :
    ∃ t found changed, s.table name = .ok t ∧ t.get key = .ok found ∧
      Condition.optionalHolds e.context (found.getD (t.keyOf key)) e.condition = .ok true ∧
      (∀ n, changed.get? n = fields.assigned (found.getD (t.keyOf key)) n) ∧
      t.SameKey changed key ∧ s.WritesAt s' name key (some changed) := by
  obtain ⟨text, u, t, found, changed, htext, hu, ht, hfound, hrevise, hsame, hwrites⟩ :=
    writesAt_update h
  obtain ⟨text', u', htext', hu', happly⟩ := Expressions.exists_update he hproper
  obtain rfl := Option.some.inj (htext.symm.trans htext')
  obtain rfl := Except.ok.inj (hu.symm.trans hu')
  obtain ⟨hholds, hchanged⟩ := Update.revise_eq_ok_iff.mp hrevise
  exact ⟨t, found, changed, ht, hfound, hholds, (happly _).2 changed hchanged, hsame, hwrites⟩

/-- **An update whose guard does not hold** says so. -/
theorem update_eq_conditionFailed (he : Expressions.forUpdate fields guard = .ok e)
    (hproper : ∃ entry ∈ fields.entries, entry.2.IsProper) {t : Table} (ht : s.table name = .ok t)
    {found : Option Item} (hfound : t.get key = .ok found)
    (hfails : Condition.optionalHolds e.context (found.getD (t.keyOf key)) e.condition = .ok false) :
    s.update ⟨name, key, e⟩ = .error (.conditionFailed (e.condition.getD "")) := by
  obtain ⟨text, u, htext, hu, _⟩ := Expressions.exists_update he hproper
  obtain ⟨keyText, hkeyText, hrecord⟩ := Table.get_eq_ok hfound
  have hrevise : u.revise e (found.getD (t.keyOf key)) =
      .error (.conditionFailed (e.condition.getD "")) := by
    rw [Update.revise, hfails]
    rfl
  have hupdate : t.update key e u = .error (.conditionFailed (e.condition.getD "")) := by
    rw [Table.update_eq, hkeyText]
    simp only [bind, Except.bind, hrecord, hrevise]
  simp only [update, htext, hu, modifyTable, ht, hupdate, Except.mapError, bind, Except.bind]

/-- **When an update succeeds**: its guard holds, all fields can be assigned to, and none of them is an
attribute of the key. -/
theorem exists_update (hs : s.Reachable) (he : Expressions.forUpdate fields guard = .ok e)
    (hproper : ∃ entry ∈ fields.entries, entry.2.IsProper) {t : Table} (ht : s.table name = .ok t)
    {found : Option Item} (hfound : t.get key = .ok found)
    (hholds : Condition.optionalHolds e.context (found.getD (t.keyOf key)) e.condition = .ok true)
    (hassign : ∀ entry ∈ fields.entries,
      entry.2.CanAssign ((found.getD (t.keyOf key)).get? entry.1))
    (hkey : ∀ n ∈ t.definition.key.attributes, fields.get? n = none) :
    ∃ s', s.update ⟨name, key, e⟩ = .ok s' := by
  obtain ⟨text, u, htext, hu, happly⟩ := Expressions.exists_update he hproper
  obtain ⟨changed, hchanged⟩ := (happly _).1.mpr hassign
  have hrevise := Update.revise_eq_ok_iff.mpr ⟨hholds, hchanged⟩
  have hcurrent : t.SameKey (found.getD (t.keyOf key)) key := by
    cases found with
    | none => exact t.sameKey_keyOf key
    | some old => exact (hs.filed_table ht).sameKey_of_get hfound
  have hsame : t.SameKey changed key := by
    intro n hn
    rw [(happly _).2 changed hchanged n, Fields.assigned, hkey n hn]
    exact hcurrent n hn
  obtain ⟨keyText, hkeyText, hrecord⟩ := Table.get_eq_ok hfound
  have hnewText := (Table.keyText_eq_iff hkeyText).mpr hsame
  have hupdate : ∃ t', t.update key e u = .ok t' := by
    refine ⟨{ t with records := t.records.insert keyText changed }, ?_⟩
    rw [Table.update_eq, hkeyText]
    simp only [bind, Except.bind, hrecord, hrevise, hnewText, if_true]
    rfl
  obtain ⟨t', hupdate⟩ := hupdate
  refine ⟨{ s with tables := s.tables.insert name t' }, ?_⟩
  simp only [update, htext, hu, modifyTable, ht, hupdate, Except.mapError, bind, Except.bind, pure,
    Except.pure]

end MemoryStore

end RecordStore
