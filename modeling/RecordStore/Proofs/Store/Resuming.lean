import RecordStore.Proofs.Store.ReadOrder
import RecordStore.Proofs.Store.Reachable
import RecordStore.Proofs.Store.Reading

/-!
# Going on from a cursor

A page that is cut short has a cursor made from the last record that it looked at.  A read from that
cursor goes through exactly the records that the page left out, because the records of a read are in
strict order, and a cursor stands where its record stands.

The order is strict for two reasons: records that tie agree in every attribute of the order, and the
attributes of the key are among these; and two records of a table do not have the same key.

* `Table.Ordered` — the attributes of an order hold keys of one kind each;
* `Table.pairwise_inOrder` — each record of a read lies beyond the records before it;
* `Table.candidates_resume` — where a cut page leaves off, the next one begins.
-/

namespace RecordStore

namespace TableDefinition

theorem mem_appendNew {n : String} {names more : List String} :
    n ∈ ordering.appendNew names more ↔ n ∈ names ∨ n ∈ more := by
  induction more generalizing names with
  | nil => simp [ordering.appendNew]
  | cons m rest ih =>
      rw [ordering.appendNew, ih]
      by_cases hm : names.contains m = true
      · have hmem : m ∈ names := List.contains_iff_mem.mp hm
        rw [if_pos hm, List.mem_cons]
        constructor
        · rintro (h | h)
          · exact .inl h
          · exact .inr (.inr h)
        · rintro (h | rfl | h)
          · exact .inl h
          · exact .inl hmem
          · exact .inr h
      · rw [if_neg hm]
        simp [or_assoc]

/-- A read is ordered by the attributes of the key at last, whichever index it goes along. -/
theorem mem_ordering_of_mem_key {definition : TableDefinition} {index : Option String}
    {names : List String} (h : definition.ordering index = .ok names) {n : String}
    (hn : n ∈ definition.key.attributes) : n ∈ names := by
  unfold ordering at h
  split at h
  · obtain rfl := Except.ok.inj h
    exact mem_appendNew.mpr (.inr hn)
  · split at h
    · obtain rfl := Except.ok.inj h
      exact mem_appendNew.mpr (.inr hn)
    · simp at h

end TableDefinition

namespace Table

/-- Records that agree in the attributes of the key are filed under the same text. -/
theorem keyText_congr {t : Table} {a b : Item}
    (h : ∀ name ∈ t.definition.key.attributes, a.get? name = b.get? name) :
    t.keyText a = t.keyText b := by
  have values (names : List String) (hnames : ∀ name ∈ names, a.get? name = b.get? name) :
      keyValues t.definition a names = keyValues t.definition b names := by
    induction names with
    | nil => rfl
    | cons name rest ih =>
        have hrest := ih fun n hn => hnames n (List.mem_cons_of_mem _ hn)
        rw [keyValues, keyValues, hnames name List.mem_cons_self, hrest]
  rw [keyText, keyText, values _ h]

/-- In each attribute of an order, the records of a table hold keys of one kind. -/
def Ordered (t : Table) (kinds : String → KeyKind) (ordering : List String) : Prop :=
  ∀ item ∈ t.records.values, item.OfKinds kinds ordering

variable {t : Table} {kinds : String → KeyKind} {index : Option String} {ordering : List String}

/-- No two records of a table have the same key. -/
theorem Filed.pairwise_keyText (hfiled : t.Filed) :
    t.records.values.Pairwise fun a b => t.keyText a ≠ t.keyText b := by
  have hnodup : t.records.entries.Pairwise fun e e' => e.1 ≠ e'.1 :=
    List.pairwise_map.mp t.records.nodup_keys
  refine List.pairwise_map.mpr (hnodup.imp_of_mem ?_)
  rintro ⟨k, a⟩ ⟨k', b⟩ ha hb hne hkey
  have hk := hfiled k a (t.records.mem_entries_iff.mp ha)
  have hk' := hfiled k' b (t.records.mem_entries_iff.mp hb)
  exact hne (Except.ok.inj (hk.symm.trans (hkey.trans hk')))

/-- No two records of a table tie. -/
theorem Filed.pairwise_values (hfiled : t.Filed)
    (hordering : t.definition.ordering index = .ok ordering) (hkinds : t.Ordered kinds ordering) :
    t.records.values.Pairwise fun a b => Item.compareOn ordering b a ≠ .eq := by
  refine hfiled.pairwise_keyText.imp_of_mem ?_
  intro a b ha hb hne htie
  have hagree := Item.get?_eq_of_compareOn_eq (hkinds b hb) (hkinds a ha) htie
  refine hne (keyText_congr ?_)
  intro name hname
  exact (hagree name (TableDefinition.mem_ordering_of_mem_key hordering hname)).symm

theorem mem_inOrder {forward : Bool} {item : Item} :
    item ∈ t.inOrder ordering forward ↔ item ∈ t.records.values ∧ item.hasAll ordering = true := by
  have hmem := (Item.perm_sorted ordering
    (t.records.values.filter fun r => Item.hasAll r ordering)).mem_iff (a := item)
  rw [List.mem_filter] at hmem
  unfold inOrder
  cases forward <;> simpa using hmem

/-- Each record of a read lies beyond the records before it. -/
theorem pairwise_inOrder (hfiled : t.Filed) (hordering : t.definition.ordering index = .ok ordering)
    (hkinds : t.Ordered kinds ordering) (forward : Bool) :
    (t.inOrder ordering forward).Pairwise fun a b =>
      isBeyond ordering forward (some ⟨a⟩) b = true := by
  have hrising : (Item.sorted ordering
      (t.records.values.filter fun r => Item.hasAll r ordering)).Pairwise
        fun a b => Item.compareOn ordering a b = .lt := by
    refine Item.pairwise_sorted (fun x hx => hkinds x (List.mem_filter.mp hx).1) ?_
    exact (hfiled.pairwise_values hordering hkinds).sublist List.filter_sublist
  cases forward with
  | true =>
      refine hrising.imp fun {a b} hab => ?_
      simp [isBeyond, Item.compareOn_swap ordering a b, hab]
  | false =>
      refine (List.pairwise_reverse.mpr hrising).imp fun {a b} hba => ?_
      simp [isBeyond, hba]

/-- What lies beyond a record that lies beyond a cursor lies beyond the cursor. -/
theorem isBeyond_trans {forward : Bool} {start : Option Cursor} {a b : Item}
    (hstart : ∀ c, start = some c → c.key.OfKinds kinds ordering) (ha : a.OfKinds kinds ordering)
    (hb : b.OfKinds kinds ordering) (hsa : isBeyond ordering forward start a = true)
    (hab : isBeyond ordering forward (some ⟨a⟩) b = true) :
    isBeyond ordering forward start b = true := by
  cases start with
  | none => rfl
  | some c =>
      have hc := hstart c rfl
      cases forward with
      | true =>
          have hca : Item.compareOn ordering c.key a = .lt := by
            rw [Item.compareOn_swap, of_decide_eq_true hsa]
            rfl
          have hab' : Item.compareOn ordering a b = .lt := by
            rw [Item.compareOn_swap, of_decide_eq_true hab]
            rfl
          have hcb := Item.compareOn_lt_trans hc ha hb hca hab'
          simp [isBeyond, Item.compareOn_swap ordering c.key b, hcb]
      | false =>
          have hbc := Item.compareOn_lt_trans hb ha hc (of_decide_eq_true hab) (of_decide_eq_true hsa)
          simp [isBeyond, hbc]

/-- Of two records at most one lies beyond the other. -/
theorem isBeyond_asymm {forward : Bool} {a b : Item}
    (h : isBeyond ordering forward (some ⟨a⟩) b = true) :
    isBeyond ordering forward (some ⟨b⟩) a = false := by
  have hba := of_decide_eq_true h
  have hab := Item.compareOn_swap ordering b a
  rw [hba] at hab
  cases forward <;> simp [isBeyond, hab, Ordering.swap]

theorem isBeyond_self (forward : Bool) (a : Item) :
    isBeyond ordering forward (some ⟨a⟩) a = false := by
  cases h : isBeyond ordering forward (some ⟨a⟩) a with
  | false => rfl
  | true => exact h.symm.trans (isBeyond_asymm h)

/-- A cursor made from a record stands where the record stands. -/
theorem isBeyond_project (forward : Bool) (last : Item) :
    isBeyond ordering forward (some ⟨Item.project last ordering⟩) =
      isBeyond ordering forward (some ⟨last⟩) := by
  funext item
  simp only [isBeyond, Item.compareOn_project_right]

theorem mem_candidates {forward : Bool} {key : Item → Bool} {start : Option Cursor} {item : Item} :
    item ∈ t.candidates ordering forward key start ↔
      (item ∈ t.records.values ∧ item.hasAll ordering = true) ∧ key item = true ∧
        isBeyond ordering forward start item = true := by
  rw [candidates, List.mem_filter, List.mem_filter, mem_inOrder, and_assoc]

/-- In a list where no record lies beyond a later one, what lies beyond a record comes after it. -/
theorem filter_isBeyond {forward : Bool} {before after : List Item} {last : Item}
    (h : (before ++ last :: after).Pairwise fun a b =>
      isBeyond ordering forward (some ⟨b⟩) a = false) :
    (before ++ last :: after).filter (isBeyond ordering forward (some ⟨last⟩)) =
      after.filter (isBeyond ordering forward (some ⟨last⟩)) := by
  have hnone : before.filter (isBeyond ordering forward (some ⟨last⟩)) = [] := by
    refine List.filter_eq_nil_iff.mpr ?_
    intro item hitem
    simp [(List.pairwise_append.mp h).2.2 item hitem last List.mem_cons_self]
  rw [List.filter_append, hnone, List.filter_cons, isBeyond_self]
  rfl

/-- **Where a cut page leaves off, the next one begins.** -/
theorem candidates_resume (hfiled : t.Filed)
    (hordering : t.definition.ordering index = .ok ordering) (hkinds : t.Ordered kinds ordering)
    {forward : Bool} {key : Item → Bool} {start : Option Cursor}
    (hstart : ∀ c, start = some c → c.key.OfKinds kinds ordering) {before after : List Item}
    {last : Item} (hcut : t.candidates ordering forward key start = before ++ last :: after) :
    t.candidates ordering forward key (some ⟨Item.project last ordering⟩) = after := by
  obtain ⟨⟨hfiled', _⟩, _, hbeyond⟩ := mem_candidates.mp
    (show last ∈ t.candidates ordering forward key start by simp [hcut])
  have hlast := hkinds last hfiled'
  -- what is beyond the record is beyond the first cursor, so the first filter may come before
  have hinner : t.candidates ordering forward key (some ⟨Item.project last ordering⟩) =
      (before ++ last :: after).filter (isBeyond ordering forward (some ⟨last⟩)) := by
    rw [← hcut, candidates, candidates, isBeyond_project]
    refine (List.filter_congr fun item hitem => ?_).trans List.filter_filter.symm
    have hitem := hkinds item (mem_inOrder.mp (List.mem_filter.mp hitem).1).1
    cases h : isBeyond ordering forward (some ⟨last⟩) item with
    | false => rfl
    | true => rw [isBeyond_trans hstart hlast hitem hbeyond h, Bool.and_self]
  have hpairwise : (before ++ last :: after).Pairwise fun a b =>
      isBeyond ordering forward (some ⟨a⟩) b = true := by
    rw [← hcut]
    exact (((pairwise_inOrder hfiled hordering hkinds forward).sublist List.filter_sublist).sublist
      List.filter_sublist)
  have hall : after.filter (isBeyond ordering forward (some ⟨last⟩)) = after :=
    List.filter_eq_self.mpr (List.pairwise_cons.mp (List.pairwise_append.mp hpairwise).2.1).1
  rw [hinner, filter_isBeyond (hpairwise.imp isBeyond_asymm), hall]

end Table

end RecordStore
