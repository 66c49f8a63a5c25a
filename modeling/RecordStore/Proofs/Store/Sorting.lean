import RecordStore.Proofs.Store.ReadOrder

/-!
# What is known of a sort

A sort is made for records whose order is transitive.  Those it puts in order, and ties keep their places.
The comparison of a table can go round in a circle, though, when an attribute holds values of several types.
Up to twenty records are sorted by insertion even then.  Of more records all that is known is that none is
lost or doubled if there is a result: any order may come out, and the sort may fail.

* `Item.Settled` — a sort of these records has a result;
* `Item.IsSort` — what every sort keeps to;
* `Item.isSort_insertionSort` — the sort of the store keeps to it, and never fails;
* `Item.isSort_cautiousSort` — so does one that fails wherever it may.
-/

namespace RecordStore.Item

variable {ordering : List String} {items l : List Item}

instance (ordering : List String) (items : List Item) : Decidable (Ranked ordering items) :=
  inferInstanceAs (Decidable (∀ x ∈ items, ∀ y ∈ items, ∀ z ∈ items,
    (compareOn ordering x y).isLE = true → (compareOn ordering y z).isLE = true →
      (compareOn ordering x z).isLE = true))

/-- Some records can be sorted: they are few, or their order is transitive. -/
def Settled (ordering : List String) (items : List Item) : Prop :=
  items.length ≤ 20 ∨ Ranked ordering items

instance (ordering : List String) (items : List Item) : Decidable (Settled ordering items) :=
  inferInstanceAs (Decidable (_ ∨ _))

/-- What every sort of records keeps to. -/
structure IsSort (sort : List String → List Item → Except Error (List Item)) : Prop where
  /-- A result has the same records, each as often. -/
  perm {ordering : List String} {items l : List Item} (h : sort ordering items = .ok l) : l.Perm items
  /-- Where the order is transitive there is a result, in this order and with ties in their places. -/
  ranked {ordering : List String} {items : List Item} (h : Ranked ordering items) :
    ∃ l, sort ordering items = .ok l ∧ l.Pairwise (Precedes ordering items)
  /-- Few records are sorted by insertion, whether or not their order is transitive. -/
  few {ordering : List String} {items : List Item} (h : items.length ≤ 20) :
    sort ordering items = insertionSort ordering items

namespace IsSort

variable {sort : List String → List Item → Except Error (List Item)} (hsort : IsSort sort)

include hsort

/-- A sort that is settled has a result. -/
theorem exists_ok (h : Settled ordering items) : ∃ l, sort ordering items = .ok l := by
  obtain hfew | hranked := h
  · exact ⟨_, hsort.few hfew⟩
  · obtain ⟨l, hl, _⟩ := hsort.ranked hranked
    exact ⟨l, hl⟩

end IsSort

/-- Sorting by insertion as far as a result is sure, and a failure otherwise. -/
def cautiousSort (fault : Error) (ordering : List String) (items : List Item) :
    Except Error (List Item) :=
  if Settled ordering items then insertionSort ordering items else .error fault

/-- It has a result exactly where it is settled, and then that of insertion. -/
theorem cautiousSort_eq_ok_iff {fault : Error} :
    cautiousSort fault ordering items = .ok l ↔ Settled ordering items ∧ l = sorted ordering items := by
  unfold cautiousSort
  split
  case isTrue h => rw [insertionSort, Except.ok.injEq, and_iff_right h, eq_comm]
  case isFalse h =>
    constructor
    · intro hl
      cases hl
    · rintro ⟨hsettled, -⟩
      exact absurd hsettled h

/-- **To fail wherever it is not settled is allowed to a sort.** -/
theorem isSort_cautiousSort (fault : Error) : IsSort (cautiousSort fault) where
  perm h := (cautiousSort_eq_ok_iff.mp h).2 ▸ perm_sorted _ _
  ranked h := ⟨_, cautiousSort_eq_ok_iff.mpr ⟨.inr h, rfl⟩, pairwise_sorted_precedes h⟩
  few h := cautiousSort_eq_ok_iff.mpr ⟨.inl h, rfl⟩

/-- Ten numbers that fall while their places rise, and eleven texts at the places between. -/
example :
    let record (part : Value) (place : Nat) : Item :=
      .ofList [("part", part), ("place", .number (toString place))]
    let numbers := (List.range 10).map fun i => record (.number (toString (9 - i))) (2 * i + 2)
    let texts := (List.range 11).map fun i => record (.string "x") (2 * i + 1)
    ¬ Settled ["part", "place"] (numbers ++ texts) := by
  decide +kernel

end RecordStore.Item
