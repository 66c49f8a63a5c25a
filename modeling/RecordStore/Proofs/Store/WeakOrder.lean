import RecordStore.Proofs.Store.AllRecords
import RecordStore.Proofs.Value.Order

/-!
# When the order of a read is a weak order

A sort needs a comparison that is a weak order: being less is transitive, and so is making no difference.
The comparison of a table takes values of different types to make no difference.  So it is a weak order only
as far as the values of an attribute all compare, or none of them is less than another.

Neither of two numbers makes a difference to a text, and yet one of them is the lesser.  A second attribute
can then put the text after the greater number and before the lesser one, and the three records go round in
a circle.

* `Item.WeakOrder` — comparing by some attributes is a weak order on some records;
* `Item.Unmixed` — the values of an attribute all compare, or none of them is less than another;
* `Item.weakOrder_iff_unmixed` — the first is the second, for every choice among some attributes;
* `Item.eq_sorted_iff` — where it holds, sorting has one result;
* `read_order_weak` — what this says of the tables of a store.
-/

namespace RecordStore

namespace Item

variable {ordering : List String} {items : List Item} {name : String}

/-- Comparing by some attributes is a weak order on some records. -/
structure WeakOrder (ordering : List String) (items : List Item) : Prop where
  swap : ∀ a ∈ items, ∀ b ∈ items, compareOn ordering b a = (compareOn ordering a b).swap
  lt_trans : ∀ a ∈ items, ∀ b ∈ items, ∀ c ∈ items, compareOn ordering a b = .lt →
    compareOn ordering b c = .lt → compareOn ordering a c = .lt
  eq_trans : ∀ a ∈ items, ∀ b ∈ items, ∀ c ∈ items, compareOn ordering a b = .eq →
    compareOn ordering b c = .eq → compareOn ordering a c = .eq

/-- All values of an attribute compare, or none of them is less than another. -/
def Unmixed (name : String) (items : List Item) : Prop :=
  (∀ a ∈ items, ∀ b ∈ items, ∀ v ∈ a.get? name, ∀ w ∈ b.get? name, v.Compares w) ∨
    ∀ a ∈ items, ∀ b ∈ items, ∀ v ∈ a.get? name, ∀ w ∈ b.get? name, v.order w ≠ some .lt

instance (name : String) (items : List Item) : Decidable (Unmixed name items) :=
  inferInstanceAs (Decidable (_ ∨ _))

/-- A comparison of records, on the members of a list. -/
def among (items : List Item) (cmp : Item → Item → Ordering) (a b : { a // a ∈ items }) : Ordering :=
  cmp a b

theorem ranked_iff_transCmp :
    Ranked ordering items ↔ Std.TransCmp (among items (compareOn ordering)) := by
  constructor
  · intro h
    exact {
      eq_swap := fun {a b} => compareOn_swap ordering b a
      isLE_trans := fun {a b c} hab hbc => h a a.2 b b.2 c c.2 hab hbc }
  · intro h a ha b hb c hc hab hbc
    exact h.isLE_trans (a := ⟨a, ha⟩) (b := ⟨b, hb⟩) (c := ⟨c, hc⟩) hab hbc

/-- A weak order is one in which rising is transitive. -/
theorem weakOrder_iff_ranked : WeakOrder ordering items ↔ Ranked ordering items := by
  constructor
  · intro h a ha b hb c hc hab hbc
    cases hac : compareOn ordering a c with
    | lt => rfl
    | eq => rfl
    | gt =>
        -- going back from the last to the first closes a circle, whichever of the two steps rise
        have hca : compareOn ordering c a = .lt := by
          rw [h.swap a ha c hc, hac]
          rfl
        cases hfirst : compareOn ordering a b with
        | gt =>
            rw [hfirst] at hab
            cases hab
        | lt =>
            have hcb := h.lt_trans c hc a ha b hb hca hfirst
            rw [h.swap c hc b hb, hcb] at hbc
            cases hbc
        | eq =>
            cases hsecond : compareOn ordering b c with
            | gt =>
                rw [hsecond] at hbc
                cases hbc
            | lt =>
                have hba := h.lt_trans b hb c hc a ha hsecond hca
                rw [h.swap a ha b hb, hfirst] at hba
                cases hba
            | eq =>
                have htie := h.eq_trans a ha b hb c hc hfirst hsecond
                rw [hac] at htie
                cases htie
  · intro h
    have htrans := ranked_iff_transCmp.mp h
    exact {
      swap := fun a _ b _ => compareOn_swap ordering a b
      lt_trans := fun a ha b hb c hc hab hbc =>
        htrans.lt_trans (a := ⟨a, ha⟩) (b := ⟨b, hb⟩) (c := ⟨c, hc⟩) hab hbc
      eq_trans := fun a ha b hb c hc hab hbc =>
        htrans.eq_trans (a := ⟨a, ha⟩) (b := ⟨b, hb⟩) (c := ⟨c, hc⟩) hab hbc }

theorem compareOn_singleton (name : String) (a b : Item) : compareOn [name] a b = compareAt name a b := by
  rw [compareOn_cons, compareOn, Ordering.then_eq]

theorem compareAt_swap (name : String) (a b : Item) : compareAt name b a = (compareAt name a b).swap := by
  rw [← compareOn_singleton, ← compareOn_singleton]
  exact compareOn_swap [name] a b

/-- Three records whose values in an attribute compare, or are missing, are in order there. -/
theorem compareAt_isLE_trans {a b c : Item}
    (hab : ∀ v ∈ a.get? name, ∀ w ∈ b.get? name, v.Compares w)
    (hbc : ∀ v ∈ b.get? name, ∀ w ∈ c.get? name, v.Compares w)
    (h : (compareAt name a b).isLE = true) (h' : (compareAt name b c).isLE = true) :
    (compareAt name a c).isLE = true := by
  unfold compareAt at *
  cases ha : a.get? name <;> cases hb : b.get? name <;> cases hc : c.get? name <;>
    rw [ha, hb] at h <;> rw [hb, hc] at h'
  case some.some.some u v w =>
    obtain ⟨α, _, _, x, y, z, hxy, hyz, hxz⟩ := (hab u ha v hb).exists_compare (hbc v hb w hc)
    simp only [hxy, hyz, hxz, Option.getD_some] at *
    exact Std.TransCmp.isLE_trans h h'
  all_goals first | rfl | cases h | cases h'

/-- Where no value of an attribute is less than another, only its presence counts. -/
theorem compareAt_eq_presence {a b : Item}
    (hab : ∀ v ∈ a.get? name, ∀ w ∈ b.get? name, v.order w ≠ some .lt)
    (hba : ∀ v ∈ b.get? name, ∀ w ∈ a.get? name, v.order w ≠ some .lt) :
    compareAt name a b = compare (a.get? name).isSome (b.get? name).isSome := by
  unfold compareAt
  cases ha : a.get? name <;> cases hb : b.get? name
  case some.some v w =>
    have hlt := hab v ha w hb
    have hgt := hba w hb v ha
    rw [Value.order_swap v w] at hgt
    have htie : (v.order w).getD .eq = .eq := by
      cases hvw : v.order w with
      | none => rfl
      | some o =>
          rw [hvw] at hlt hgt
          cases o with
          | lt => exact absurd rfl hlt
          | eq => rfl
          | gt => exact absurd rfl hgt
    exact htie
  all_goals rfl

/-- An attribute whose values are unmixed puts the records in order. -/
theorem transCmp_compareAt (h : Unmixed name items) : Std.TransCmp (among items (compareAt name)) where
  eq_swap := fun {a b} => compareAt_swap name b a
  isLE_trans := by
    intro a b c hab hbc
    obtain hcompares | hnone := h
    · exact compareAt_isLE_trans (hcompares a a.2 b b.2) (hcompares b b.2 c c.2) hab hbc
    · have hpresence (x y : { a // a ∈ items }) :
          among items (compareAt name) x y = compare (x.1.get? name).isSome (y.1.get? name).isSome :=
        compareAt_eq_presence (hnone x x.2 y y.2) (hnone y y.2 x x.2)
      rw [hpresence] at hab hbc ⊢
      exact Std.TransCmp.isLE_trans hab hbc

/-- **Unmixed attributes order the records**, one within another. -/
theorem ranked_of_unmixed (h : ∀ name ∈ ordering, Unmixed name items) : Ranked ordering items := by
  rw [ranked_iff_transCmp]
  induction ordering with
  | nil => exact { eq_swap := rfl, isLE_trans := fun _ _ => rfl }
  | cons name rest ih =>
      have hfirst := transCmp_compareAt (h name List.mem_cons_self)
      have hrest := ih fun n hn => h n (List.mem_cons_of_mem _ hn)
      have hlex : among items (compareOn (name :: rest))
          = compareLex (among items (compareAt name)) (among items (compareOn rest)) := by
        funext a b
        exact compareOn_cons
      rw [hlex]
      infer_instance

/-- **An attribute that orders the records is unmixed.**  A value that compares with neither of two others
makes no difference to either, and so they must make none to each other. -/
theorem unmixed_of_weakOrder (h : WeakOrder [name] items) : Unmixed name items := by
  by_contra hmixed
  unfold Unmixed at hmixed
  push Not at hmixed
  obtain ⟨⟨a, ha, b, hb, u, hu, v, hv, huv⟩, c, hc, d, hd, x, hx, y, hy, hxy⟩ := hmixed
  rw [Option.mem_def] at hu hv hx hy
  have hlt : compareOn [name] c d = .lt := by simp [compareOn, compareAt, hx, hy, hxy]
  have hcompares : x.Compares y := by
    unfold Value.Compares
    rw [hxy]
    rfl
  -- one of the two values that do not compare with each other does not compare with the lesser value
  have houtsider : ∃ e ∈ items, ∃ z, e.get? name = some z ∧ ¬ x.Compares z := by
    by_cases hxu : x.Compares u
    · exact ⟨b, hb, v, hv, fun hxv => huv (hxu.symm.trans hxv)⟩
    · exact ⟨a, ha, u, hu, hxu⟩
  obtain ⟨e, he, z, hz, hxz⟩ := houtsider
  have hzy : ¬ z.Compares y := fun hzy => hxz (hcompares.trans hzy.symm)
  have hce : compareOn [name] c e = .eq := by
    have hnone : x.order z = none := Option.not_isSome_iff_eq_none.mp hxz
    simp [compareOn, compareAt, hx, hz, hnone]
  have hed : compareOn [name] e d = .eq := by
    have hnone : z.order y = none := Option.not_isSome_iff_eq_none.mp hzy
    simp [compareOn, compareAt, hz, hy, hnone]
  have hcd := h.eq_trans c hc e he d hd hce hed
  rw [hlt] at hcd
  cases hcd

/-- **The comparison is a weak order by every choice among some attributes exactly if each of them is
unmixed.** -/
theorem weakOrder_iff_unmixed (names : List String) (items : List Item) :
    (∀ ordering, ordering ⊆ names → WeakOrder ordering items) ↔ ∀ name ∈ names, Unmixed name items := by
  constructor
  · intro h name hname
    exact unmixed_of_weakOrder (h [name] (List.cons_subset.mpr ⟨hname, List.nil_subset _⟩))
  · intro h ordering hordering
    exact weakOrder_iff_ranked.mpr (ranked_of_unmixed fun name hname => h name (hordering hname))

/-- **In one attribute, what is less is transitive**, whatever the types of the values. -/
theorem compareAt_lt_trans {a b c : Item} (h : compareAt name a b = .lt) (h' : compareAt name b c = .lt) :
    compareAt name a c = .lt := by
  have hcompares {v w : Value} (hlt : (v.order w).getD .eq = .lt) : v.Compares w := by
    unfold Value.Compares
    cases hvw : v.order w with
    | none =>
        rw [hvw] at hlt
        cases hlt
    | some o => rfl
  unfold compareAt at *
  cases ha : a.get? name <;> cases hb : b.get? name <;> cases hc : c.get? name <;>
    rw [ha, hb] at h <;> rw [hb, hc] at h'
  case some.some.some u v w =>
    obtain ⟨α, _, _, x, y, z, hxy, hyz, hxz⟩ := (hcompares h).exists_compare (hcompares h')
    simp only [hxy, hyz, hxz, Option.getD_some] at *
    exact Std.TransCmp.lt_trans h h'
  all_goals first | rfl | exact Ordering.noConfusion h | exact Ordering.noConfusion h'

variable {a b : Item}

/-- Of two records in a list without repetitions only one comes first. -/
theorem not_sublist_swap (hnodup : items.Nodup) (h : [a, b].Sublist items) : ¬ [b, a].Sublist items := by
  intro hswap
  induction items with
  | nil => cases h
  | cons x rest ih =>
      obtain ⟨hx, hrest⟩ := List.nodup_cons.mp hnodup
      have hmem {y z : Item} (hpair : [y, z].Sublist (x :: rest)) : z ∈ rest := by
        cases hpair with
        | cons _ hpair => exact hpair.subset (by simp)
        | cons_cons _ hpair => exact hpair.subset (by simp)
      cases h with
      | cons_cons _ _ => exact hx (hmem hswap)
      | cons _ hpair =>
          cases hswap with
          | cons_cons _ _ => exact hx (hpair.subset (by simp))
          | cons _ hswap => exact ih hrest hpair hswap

/-- What a stable sort has to put before one another cannot be both ways. -/
theorem Precedes.asymm (hnodup : items.Nodup) (h : Precedes ordering items a b) :
    ¬ Precedes ordering items b a := by
  intro hback
  have hswap := compareOn_swap ordering a b
  obtain hlt | ⟨htie, hfirst⟩ := h
  · have hle := hback.isLE
    rw [hswap, hlt] at hle
    cases hle
  · obtain hlt | ⟨-, hlater⟩ := hback
    · rw [hlt, htie] at hswap
      cases hswap
    · exact not_sublist_swap hnodup hfirst hlater

/-- **Sorting has one result** where the order of the records is transitive: the one way to put them in
order that leaves ties in their places. -/
theorem eq_sorted_iff (hranked : Ranked ordering items) (hnodup : items.Nodup) (l : List Item) :
    l.Perm items ∧ l.Pairwise (Precedes ordering items) ↔ l = sorted ordering items := by
  constructor
  · rintro ⟨hperm, hprecedes⟩
    refine List.Perm.eq_of_pairwise ?_ hprecedes (pairwise_sorted_precedes hranked)
      (hperm.trans (perm_sorted ordering items).symm)
    intro a b _ _ hab hba
    exact absurd hba (hab.asymm hnodup)
  · rintro rfl
    exact ⟨perm_sorted ordering items, pairwise_sorted_precedes hranked⟩

end Item

/-- **The order of a read is a weak order where its attributes are unmixed.**

Exchanging two records always reverses their order, and in a single attribute what is less is transitive.
By every choice among some attributes the order is a weak one exactly if each of them is unmixed in the
records.  Then a table is read in the one order that is a stable sort of its records, or in its reverse. -/
theorem read_order_weak {s : MemoryStore} {table : String} {t : Table} (hs : s.Reachable)
    (ht : s.table table = .ok t) :
    (∀ (ordering : List String) (a b : Item),
        Item.compareOn ordering b a = (Item.compareOn ordering a b).swap) ∧
      (∀ (name : String) (a b c : Item), Item.compareOn [name] a b = .lt →
        Item.compareOn [name] b c = .lt → Item.compareOn [name] a c = .lt) ∧
      (∀ (names : List String) (items : List Item),
        (∀ ordering, ordering ⊆ names → Item.WeakOrder ordering items) ↔
          ∀ name ∈ names, Item.Unmixed name items) ∧
      ∀ ordering : List String,
        let records := t.records.values.filter fun r => Item.hasAll r ordering
        (∀ name ∈ ordering, Item.Unmixed name records) → ∀ (forward : Bool) (l : List Item),
          (l.Perm records ∧
              (if forward then l else l.reverse).Pairwise (Item.Precedes ordering records)) ↔
            l = t.inOrder ordering forward := by
  refine ⟨Item.compareOn_swap, ?_, Item.weakOrder_iff_unmixed, ?_⟩
  · intro name a b c hab hbc
    rw [Item.compareOn_singleton] at *
    exact Item.compareAt_lt_trans hab hbc
  · intro ordering records hunmixed forward l
    have hnodup : records.Nodup := (hs.filed_table ht).nodup_values.filter _
    have hsorted := Item.eq_sorted_iff (Item.ranked_of_unmixed hunmixed) hnodup
    cases forward with
    | true => exact hsorted l
    | false =>
        have hrising := hsorted l.reverse
        rw [List.reverse_perm', List.reverse_eq_iff] at hrising
        exact hrising

namespace MemoryStore

/-- A record with a part of any type and a place. -/
def entry (part : Value) (place : String) : Item := .ofList [("part", part), ("place", .number place)]

/-- A number, a text and a lesser number, at rising places. -/
def circle : MemoryStore :=
  let file (s : MemoryStore) (item : Item) : MemoryStore := ((store.put "circle" item).run s).2
  [entry (.number "2") "1", entry (.string "x") "2", entry (.number "1") "3"].foldl file
    (MemoryStore.empty.createTable ⟨"circle", ⟨"part", some "place"⟩, .empty⟩)

theorem reachable_circle : circle.Reachable := by
  have hempty := Reachable.empty.createTable ⟨"circle", ⟨"part", some "place"⟩, .empty⟩
  have hfirst := hempty.run_put "circle" (entry (.number "2") "1")
  have hsecond := hfirst.run_put "circle" (entry (.string "x") "2")
  exact hsecond.run_put "circle" (entry (.number "1") "3")

end MemoryStore

open MemoryStore in
/-- **The order of a read need not be a weak order**: three records of a store that can be reached go round
in a circle. -/
theorem not_read_order_weak :
    ¬ ∀ (s : MemoryStore) (name : String) (t : Table) (index : Option String) (ordering : List String),
      s.Reachable → s.table name = .ok t → t.definition.ordering index = .ok ordering →
        Item.WeakOrder ordering t.records.values := by
  intro h
  have htable : ∃ t ∈ (circle.table "circle").toOption, t.definition.ordering none = .ok ["part", "place"] ∧
      entry (.number "2") "1" ∈ t.records.values ∧ entry (.string "x") "2" ∈ t.records.values ∧
      entry (.number "1") "3" ∈ t.records.values := by
    decide +kernel
  obtain ⟨t, ht, hordering, ha, hb, hc⟩ := htable
  have hweak := h circle "circle" t none _ reachable_circle (mem_toOption.mp ht) hordering
  have hab : Item.compareOn ["part", "place"] (entry (.number "2") "1") (entry (.string "x") "2") = .lt := by
    decide +kernel
  have hbc : Item.compareOn ["part", "place"] (entry (.string "x") "2") (entry (.number "1") "3") = .lt := by
    decide +kernel
  have hac : Item.compareOn ["part", "place"] (entry (.number "2") "1") (entry (.number "1") "3") = .gt := by
    decide +kernel
  have hcircle := hweak.lt_trans _ ha _ hb _ hc hab hbc
  rw [hac] at hcircle
  cases hcircle

open MemoryStore in
/-- By their places alone the same three records have one order. -/
theorem read_order_weak_circle :
    let places := [entry (.number "2") "1", entry (.string "x") "2", entry (.number "1") "3"]
    ∃ t, circle.table "circle" = .ok t ∧ Item.Unmixed "place" t.records.values ∧
      ¬ Item.Unmixed "part" t.records.values ∧ t.inOrder ["place"] true = places ∧
      Item.compareOn ["place"] (entry (.number "2") "1") (entry (.number "1") "3") = .lt := by
  intro places
  have htable : ∃ t ∈ (circle.table "circle").toOption,
      (t.records.values.filter fun r => Item.hasAll r ["place"]) = t.records.values ∧
      Item.Unmixed "place" t.records.values ∧ ¬ Item.Unmixed "part" t.records.values ∧
      places.Perm t.records.values := by
    decide +kernel
  obtain ⟨t, ht, hall, hplace, hpart, hperm⟩ := htable
  have hrising : places.Pairwise fun x y => Item.compareOn ["place"] x y = .lt := by decide +kernel
  obtain ⟨-, htrans, -, hread⟩ := read_order_weak reachable_circle (mem_toOption.mp ht)
  have hone := hread ["place"]
  rw [hall] at hone
  have hinOrder := (hone (List.forall_mem_singleton.mpr hplace) true places).mp
    ⟨hperm, hrising.imp fun hlt => .inl hlt⟩
  have hstart : Item.compareOn ["place"] (entry (.number "2") "1") (entry (.string "x") "2") = .lt := by
    decide +kernel
  have hnext : Item.compareOn ["place"] (entry (.string "x") "2") (entry (.number "1") "3") = .lt := by
    decide +kernel
  exact ⟨t, mem_toOption.mp ht, hplace, hpart, hinOrder.symm, htrans _ _ _ _ hstart hnext⟩

end RecordStore
