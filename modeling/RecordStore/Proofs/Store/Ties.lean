import RecordStore.Proofs.Store.WeakOrder

/-!
# Records that tie

A record is filed under the text of its key, and a read goes by the order of values.  The two do not
tell the same values apart: a number keeps the text that it was given as, but is compared as a
floating-point number.  So numbers of one value that are spelled differently, as 1 and 1.0 are, make
different keys that tie in every order.

They are the only ones.  Of two records that do not tie, each read comes to one after the other, and the
page from the earlier one goes on to the later one.  Of two that do tie, the page from either passes over
the other.

* `Value.Alike`, `Value.Respelled` — scalars of one type, and two texts of one number;
* `Value.Alike.order_eq_iff` — scalars of one type tie if they are the same or respelled;
* `Table.AlikeAlong.candidates_after` — where all records have scalars of one type, a page goes on to all
  that comes after its last record and does not tie with it;
* `Table.ties_are_respelled` — records under different keys of any table, along any of its orders;
* `not_compareOn_ne` — such records do tie.
-/

namespace RecordStore

namespace Value

/-- Where a number stands on the line of units, if it is a finite one. -/
def position? (v : Value) : Option Int :=
  (v.toBinary64?.filter Binary64.isFinite).map Binary64.position

/-- Two scalars of one type; numbers have to be finite. -/
inductive Alike : Value → Value → Prop where
  | texts (s t : String) : Alike (.string s) (.string t)
  | bytes (s t : List UInt8) : Alike (.bytes s) (.bytes t)
  | truths (s t : Bool) : Alike (.bool s) (.bool t)
  | numbers {v w : Value} (hv : v.position?.isSome = true) (hw : w.position?.isSome = true) : Alike v w

/-- Two texts of one finite number. -/
def Respelled (v w : Value) : Prop := v ≠ w ∧ v.position?.isSome = true ∧ v.position? = w.position?

variable {u v w : Value}

/-- A value with a position is a number that is finite. -/
theorem exists_of_position? {i : Int} (h : v.position? = some i) :
    ∃ s negative units, v = .number s ∧ Literal.binary64? s = some (.finite negative units) ∧
      i = Binary64.signed negative units := by
  obtain ⟨x, hx, rfl⟩ := Option.map_eq_some_iff.mp h
  obtain ⟨hread, hfinite⟩ := Option.filter_eq_some_iff.mp hx
  cases v with
  | number s =>
      cases x with
      | finite negative units => exact ⟨s, negative, units, rfl, hread, rfl⟩
      | nan => cases hfinite
      | infinity negative => cases hfinite
  | _ => cases hread

/-- Finite numbers compare by where they stand. -/
theorem order_of_position? {i j : Int} (hv : v.position? = some i) (hw : w.position? = some j) :
    v.order w = some (compare i j) := by
  obtain ⟨s, m, x, rfl, hs, rfl⟩ := exists_of_position? hv
  obtain ⟨t, n, y, rfl, ht, rfl⟩ := exists_of_position? hw
  rw [order, hs, ht]
  rfl

/-- Only numbers are respelled. -/
theorem not_respelled (h : v.position? = none) : ¬ v.Respelled w := by
  intro ⟨_, hv, _⟩
  rw [h] at hv
  cases hv

/-- **Scalars of one type tie** if they are the same or respelled. -/
theorem Alike.order_eq_iff (h : v.Alike w) : v.order w = some .eq ↔ v = w ∨ v.Respelled w := by
  cases h with
  | texts s t =>
      rw [or_iff_left (not_respelled rfl), order, Option.some.injEq, Std.compare_eq_iff_eq,
        string.injEq]
  | bytes s t =>
      rw [or_iff_left (not_respelled rfl), order, Option.some.injEq, Std.compare_eq_iff_eq,
        bytes.injEq]
  | truths s t =>
      rw [or_iff_left (not_respelled rfl), order, Option.some.injEq, Std.compare_eq_iff_eq,
        bool.injEq]
  | numbers hv hw =>
      obtain ⟨i, hi⟩ := Option.isSome_iff_exists.mp hv
      obtain ⟨j, hj⟩ := Option.isSome_iff_exists.mp hw
      rw [order_of_position? hi hj, Option.some.injEq, Std.compare_eq_iff_eq, Respelled, hi, hj,
        Option.some.injEq]
      constructor
      · intro hij
        by_cases hvw : v = w
        · exact .inl hvw
        · exact .inr ⟨hvw, rfl, hij⟩
      · intro h
        rcases h with hvw | ⟨_, _, hij⟩
        · rw [hvw, hj] at hi
          exact (Option.some.inj hi).symm
        · exact hij

/-- Alike values compare. -/
theorem Alike.compares (h : v.Alike w) : v.Compares w := by
  cases h with
  | numbers hv hw =>
      obtain ⟨i, hi⟩ := Option.isSome_iff_exists.mp hv
      obtain ⟨j, hj⟩ := Option.isSome_iff_exists.mp hw
      unfold Compares
      rw [order_of_position? hi hj]
      rfl
  | _ => rfl

end Value

namespace Item

variable {a b : Item}

/-- Two records have scalars of one type in each of some attributes. -/
def AlikeIn (names : List String) (a b : Item) : Prop :=
  ∀ name ∈ names, ∃ v w, a.get? name = some v ∧ b.get? name = some w ∧ v.Alike w

/-- Two records have two texts of one number in an attribute. -/
def RespelledAt (name : String) (a b : Item) : Prop :=
  ∃ v w, a.get? name = some v ∧ b.get? name = some w ∧ v.Respelled w

/-- Two records agree in some attributes but for numbers that are respelled, and there is one. -/
def RespelledIn (names : List String) (a b : Item) : Prop :=
  (∀ name ∈ names, a.get? name = b.get? name ∨ RespelledAt name a b) ∧
    ∃ name ∈ names, RespelledAt name a b

/-- Alike values tie if they are equal, or if one is the other spelled in another way. -/
theorem compareAt_eq_iff {name : String} {v w : Value} (ha : a.get? name = some v)
    (hb : b.get? name = some w) (h : v.Alike w) :
    compareAt name a b = .eq ↔ a.get? name = b.get? name ∨ RespelledAt name a b := by
  obtain ⟨o, ho⟩ := Option.isSome_iff_exists.mp h.compares
  have htie : compareAt name a b = .eq ↔ v.order w = some .eq := by
    rw [compareAt, ha, hb]
    simp [ho]
  rw [htie, h.order_eq_iff, ha, hb, Option.some.injEq]
  refine or_congr_right ?_
  constructor
  · intro hrespelled
    exact ⟨v, w, ha, hb, hrespelled⟩
  · intro hat
    obtain ⟨v', w', hv', hw', hrespelled⟩ := hat
    obtain rfl := Option.some.inj (ha.symm.trans hv')
    obtain rfl := Option.some.inj (hb.symm.trans hw')
    exact hrespelled

/-- **Records with scalars of one type in their keys** tie in them if they agree up to spelling. -/
theorem compareOn_eq_iff_of_alikeIn {names : List String} (h : AlikeIn names a b) :
    compareOn names a b = .eq ↔
      ∀ name ∈ names, a.get? name = b.get? name ∨ RespelledAt name a b := by
  rw [compareOn_eq_iff]
  refine forall₂_congr ?_
  intro name hname
  obtain ⟨v, w, hv, hw, halike⟩ := h name hname
  exact compareAt_eq_iff hv hw halike

end Item

namespace Table

variable {t : Table} {ordering : List String} {forward : Bool} {key : Item → Bool} {a b : Item}

/-- Records under different keys that agree up to spelling are respelled somewhere. -/
theorem respelledIn_iff (hne : t.keyText a ≠ t.keyText b) :
    Item.RespelledIn t.definition.key.attributes a b ↔
      ∀ name ∈ t.definition.key.attributes, a.get? name = b.get? name ∨ Item.RespelledAt name a b := by
  constructor
  · intro h
    exact h.1
  · intro h
    refine ⟨h, ?_⟩
    by_contra hnone
    refine hne (keyText_congr ?_)
    intro name hname
    rcases h name hname with hsame | hrespelled
    · exact hsame
    · exact absurd ⟨name, hname, hrespelled⟩ hnone

/-- Of two records that do not tie, one and only one lies beyond the other. -/
theorem isBeyond_eq_not (h : Item.compareOn ordering a b ≠ .eq) :
    isBeyond ordering forward (some ⟨a⟩) b = !isBeyond ordering forward (some ⟨b⟩) a := by
  rw [isBeyond, isBeyond, Item.compareOn_swap ordering a b]
  cases hab : Item.compareOn ordering a b with
  | eq => exact absurd hab h
  | lt => cases forward <;> rfl
  | gt => cases forward <;> rfl

/-- Of two records that tie, neither lies beyond the other. -/
theorem isBeyond_of_tie (h : Item.compareOn ordering a b = .eq) :
    isBeyond ordering forward (some ⟨b⟩) a = false ∧
      isBeyond ordering forward (some ⟨a⟩) b = false := by
  rw [isBeyond, isBeyond, Item.compareOn_swap ordering a b, h]
  cases forward <;> exact ⟨rfl, rfl⟩

/-- In each attribute of an order, the records of a table have scalars of one type. -/
def AlikeAlong (t : Table) (ordering : List String) : Prop :=
  ∀ a ∈ t.records.values, ∀ b ∈ t.records.values, ∀ name ∈ ordering, ∀ v w,
    a.get? name = some v → b.get? name = some w → v.Alike w

/-- What a read goes through is in order: no record lies beyond one that comes after it. -/
theorem AlikeAlong.pairwise_inOrder (h : t.AlikeAlong ordering) :
    (t.inOrder ordering forward).Pairwise fun a b =>
      isBeyond ordering forward (some ⟨b⟩) a = false := by
  have hunmixed : ∀ name ∈ ordering,
      Item.Unmixed name (t.records.values.filter fun r => Item.hasAll r ordering) := by
    intro name hname
    refine .inl ?_
    intro x hx y hy v hv w hw
    exact (h x (List.mem_filter.mp hx).1 y (List.mem_filter.mp hy).1 name hname v w hv hw).compares
  have hrising := Item.pairwise_sorted_isLE (Item.ranked_of_unmixed hunmixed)
  -- an earlier record is not greater, and in a backward read it is not less
  cases forward with
  | true =>
      refine hrising.imp ?_
      intro x y hle
      rw [isBeyond, decide_eq_false_iff_not]
      intro hgt
      have hgt : Item.compareOn ordering x y = .gt := hgt
      rw [hgt] at hle
      cases hle
  | false =>
      refine (List.pairwise_reverse.mpr hrising).imp ?_
      intro x y hle
      rw [isBeyond, decide_eq_false_iff_not]
      intro hlt
      have hlt : Item.compareOn ordering x y = .lt := hlt
      rw [Item.compareOn_swap, hlt] at hle
      cases hle

/-- **What a page goes on to** after a record: all that comes after it and does not tie with it. -/
theorem AlikeAlong.candidates_after (h : t.AlikeAlong ordering) {before after : List Item}
    (hcut : t.candidates ordering forward key none = before ++ a :: after) :
    t.candidates ordering forward key (some ⟨Item.project a ordering⟩) =
      after.filter fun b => decide (Item.compareOn ordering a b ≠ .eq) := by
  have hall : t.candidates ordering forward key none = (t.inOrder ordering forward).filter key :=
    List.filter_eq_self.mpr fun _ _ => rfl
  have hpairwise := h.pairwise_inOrder.sublist (@List.filter_sublist _ key (t.inOrder ordering forward))
  rw [← hall, hcut] at hpairwise
  obtain ⟨hlater, _⟩ := List.pairwise_cons.mp (List.pairwise_append.mp hpairwise).2.1
  rw [candidates, ← hall, hcut, isBeyond_project, filter_isBeyond hpairwise]
  refine List.filter_congr ?_
  intro b hb
  -- the record does not lie beyond what comes after it, so what comes after it does unless they tie
  by_cases htie : Item.compareOn ordering a b = .eq
  · rw [(isBeyond_of_tie htie).2, decide_eq_false (not_not.mpr htie)]
  · rw [isBeyond_eq_not htie, hlater b hb, decide_eq_true htie]
    rfl

/-- **Ties are respelled.**  Take two records of a table that are stored under different keys, with
scalars of one type in each attribute of the key, and read the table or one of its indexes.  They tie if
and only if they tie in the attributes of the index and the texts of a number are all that their keys
differ in.  If they tie, a read from a cursor made from either of them does not come to the other.  If they
do not, and both match, then a read from one of them comes to the other, and a read from the other does not
come back; and if all records have scalars of one type in each attribute of the order, it is the read from
the earlier one that comes to the later one. -/
theorem ties_are_respelled {t : Table} {a b : Item} (ha : a ∈ t.records.values)
    (hb : b ∈ t.records.values) (hne : t.keyText a ≠ t.keyText b)
    (halike : Item.AlikeIn t.definition.key.attributes a b) {index : Option String}
    {attributes : List String} (hindex : t.definition.indexAttributes index = some attributes) :
    ∃ ordering, t.definition.ordering index = .ok ordering ∧
      (Item.compareOn ordering a b = .eq ↔
        Item.compareOn attributes a b = .eq ∧
          Item.RespelledIn t.definition.key.attributes a b) ∧
      ∀ (forward : Bool) (key : Item → Bool),
        let next (x : Item) := t.candidates ordering forward key (some ⟨Item.project x ordering⟩)
        (Item.compareOn ordering a b = .eq → a ∉ next b ∧ b ∉ next a) ∧
        (Item.compareOn ordering a b ≠ .eq → a.hasAll ordering = true → b.hasAll ordering = true →
          key a = true → key b = true → (b ∈ next a ↔ a ∉ next b)) ∧
        (t.AlikeAlong ordering → ∀ before after,
          t.candidates ordering forward key none = before ++ a :: after → b ∈ after →
            (b ∈ next a ↔ Item.compareOn ordering a b ≠ .eq)) := by
  refine ⟨_, TableDefinition.ordering_eq hindex, ?_, ?_⟩
  · rw [Item.compareOn_appendNew, Item.compareOn_append, Ordering.then_eq_eq,
      respelledIn_iff hne, Item.compareOn_eq_iff_of_alikeIn halike]
  · intro forward key next
    refine ⟨?_, ?_, ?_⟩
    · intro htie
      obtain ⟨hab, hba⟩ := @isBeyond_of_tie _ forward _ _ htie
      simp only [next, mem_candidates, isBeyond_project, hab, hba, Bool.false_eq_true, and_false,
        not_false_eq_true, and_self]
    · intro htie hall hall' hkey hkey'
      simp only [next, mem_candidates, isBeyond_project, isBeyond_eq_not htie, ha, hb, hall, hall', hkey,
        hkey', true_and, and_self, Bool.not_eq_true, Bool.not_eq_true']
    · intro halong before after hcut hafter
      simp only [next, halong.candidates_after hcut, List.mem_filter, hafter, true_and,
        decide_eq_true_iff]

end Table

namespace MemoryStore

/-- A record under a number. -/
def mark (number : String) : Item := .ofList [("source", .string "s"), ("target", .number number)]

/-- Records under two texts of one number. -/
def marks : MemoryStore :=
  let file (s : MemoryStore) (number : String) : MemoryStore :=
    ((store.put "marks" (mark number)).run s).2
  ["1", "1.0"].foldl file
    (MemoryStore.empty.createTable ⟨"marks", ⟨"source", some "target"⟩, .empty⟩)

theorem reachable_marks : marks.Reachable := by
  have hempty := Reachable.empty.createTable ⟨"marks", ⟨"source", some "target"⟩, .empty⟩
  exact (hempty.run_put "marks" (mark "1")).run_put "marks" (mark "1.0")

theorem alikeIn_marks : Item.AlikeIn ["source", "target"] (mark "1") (mark "1.0") := by
  intro name hname
  rcases List.mem_cons.mp hname with rfl | hname
  · exact ⟨_, _, rfl, rfl, .texts "s" "s"⟩
  · obtain rfl := List.mem_singleton.mp hname
    exact ⟨.number "1", .number "1.0", rfl, rfl, .numbers (by decide +kernel) (by decide +kernel)⟩

/-- The two records are stored under different keys. -/
theorem exists_table_marks : ∃ t, marks.table "marks" = .ok t ∧
    t.definition.key.attributes = ["source", "target"] ∧ mark "1" ∈ t.records.values ∧
    mark "1.0" ∈ t.records.values ∧ t.keyText (mark "1") ≠ t.keyText (mark "1.0") ∧
    Item.AlikeIn t.definition.key.attributes (mark "1") (mark "1.0") := by
  have htable : ∃ t ∈ (marks.table "marks").toOption,
      t.definition.key.attributes = ["source", "target"] ∧ mark "1" ∈ t.records.values ∧
      mark "1.0" ∈ t.records.values ∧ t.keyText (mark "1") ≠ t.keyText (mark "1.0") := by
    decide +kernel
  obtain ⟨t, ht, hkey, ha, hb, hne⟩ := htable
  refine ⟨t, mem_toOption.mp ht, hkey, ha, hb, hne, ?_⟩
  rw [hkey]
  exact alikeIn_marks

theorem compareOn_marks : Item.compareOn ["source", "target"] (mark "1") (mark "1.0") = .eq := by
  decide +kernel

end MemoryStore

open MemoryStore in
/-- **Records under different keys can tie**, in a store that can be reached and with scalars of one type
in their keys. -/
theorem not_compareOn_ne :
    ¬ ∀ (s : MemoryStore) (name : String) (t : Table) (a b : Item) (index : Option String)
      (ordering : List String), s.Reachable → s.table name = .ok t → a ∈ t.records.values →
        b ∈ t.records.values → t.keyText a ≠ t.keyText b →
          Item.AlikeIn t.definition.key.attributes a b →
            t.definition.ordering index = .ok ordering → Item.compareOn ordering a b ≠ .eq := by
  intro h
  obtain ⟨t, ht, hkey, ha, hb, hne, halike⟩ := exists_table_marks
  have hordering : t.definition.ordering none = .ok ["source", "target"] := by
    rw [TableDefinition.ordering, hkey]
    rfl
  exact h marks "marks" t (mark "1") (mark "1.0") none _ reachable_marks ht ha hb hne halike hordering
    compareOn_marks

open MemoryStore in
/-- A read from the first record does not come to the second. -/
theorem ties_are_respelled_marks :
    ∃ t, marks.table "marks" = .ok t ∧ mark "1" ∈ t.records.values ∧ mark "1.0" ∈ t.records.values ∧
      t.keyText (mark "1") ≠ t.keyText (mark "1.0") ∧
      Item.AlikeIn t.definition.key.attributes (mark "1") (mark "1.0") ∧
      t.definition.indexAttributes none = some [] ∧
      Item.RespelledIn t.definition.key.attributes (mark "1") (mark "1.0") ∧
      mark "1.0" ∉ t.candidates ["source", "target"] true (fun _ => true)
        (some ⟨Item.project (mark "1") ["source", "target"]⟩) := by
  obtain ⟨t, ht, hkey, ha, hb, hne, halike⟩ := exists_table_marks
  have hindex : t.definition.indexAttributes none = some [] := rfl
  obtain ⟨ordering, hordering, htie, hnext⟩ := Table.ties_are_respelled ha hb hne halike hindex
  obtain rfl : ["source", "target"] = ordering := by
    rw [TableDefinition.ordering, hkey] at hordering
    exact Except.ok.inj hordering
  exact ⟨t, ht, ha, hb, hne, halike, hindex, (htie.mp compareOn_marks).2,
    ((hnext _ _).1 compareOn_marks).2⟩

end RecordStore
