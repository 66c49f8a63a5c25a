import RecordStore.Value.Order

/-!
# Values that compare

Some values compare with nothing: lists, maps, and numbers whose text is none or spells no number.  The
others fall into types, and two of them compare exactly if they are of one type.  So comparing is
transitive, and within a type the order is.

* `order_numbers` — numbers compare by the places that their texts are read at;
* `order_ne_none_iff` — two values compare exactly if they are of one scalar type;
* `Compares.exists_compare` — three values of which the middle one compares with both others are ordered as
  three members of one order;
* `Compares.trans` — then the outer two compare as well;
* `order_lt_trans`, `order_congr` — less is transitive, and equal values compare alike with everything.
-/

namespace RecordStore.Value

/-- Two values compare. -/
def Compares (v w : Value) : Prop := (v.order w).isSome = true

instance (v w : Value) : Decidable (v.Compares w) := inferInstanceAs (Decidable (_ = true))

variable {u v w : Value}

/-- Comparing goes both ways. -/
theorem Compares.symm (h : v.Compares w) : w.Compares v := by
  unfold Compares at *
  rw [order_swap v w, Option.isSome_map]
  exact h

/-- The place on the line of units that a text is read at, unless it is read as no number. -/
def placeOf (text : String) : Option Int :=
  match Literal.binary64? text with
  | none | some .nan => none
  | some x => some x.position

/-- Numbers compare by their places. -/
theorem order_numbers (s t : String) :
    order (.number s) (.number t) =
      (placeOf s).bind fun i => (placeOf t).map fun j => compare i j := by
  simp only [order, placeOf]
  cases Literal.binary64? s with
  | none => rfl
  | some x =>
      cases Literal.binary64? t with
      | none => cases x <;> rfl
      | some y => cases x <;> cases y <;> rfl

/-- Numbers that compare have places on one line: neither of them is read as no number. -/
theorem exists_placeOf {s t : String} (h : (number s).Compares (number t)) :
    ∃ i j, placeOf s = some i ∧ placeOf t = some j := by
  unfold Compares at h
  rw [order_numbers] at h
  cases hs : placeOf s with
  | none =>
      rw [hs] at h
      cases h
  | some i =>
      cases ht : placeOf t with
      | none =>
          rw [hs, ht] at h
          cases h
      | some j => exact ⟨i, j, rfl, rfl⟩

/-- They compare as their places do. -/
theorem order_of_placeOf {s t : String} {i j : Int} (hs : placeOf s = some i) (ht : placeOf t = some j) :
    order (.number s) (.number t) = some (compare i j) := by
  rw [order_numbers, hs, ht]
  rfl

/-- **Values that compare are ordered as members of one order.** -/
theorem Compares.exists_compare (huv : u.Compares v) (hvw : v.Compares w) :
    ∃ (α : Type) (_ : Ord α) (_ : Std.TransOrd α) (x y z : α), u.order v = some (compare x y) ∧
      v.order w = some (compare y z) ∧ u.order w = some (compare x z) := by
  cases u <;> cases v <;> try cases huv
  case number.number s t =>
    cases w <;> try cases hvw
    case number r =>
      obtain ⟨i, j, hs, ht⟩ := exists_placeOf huv
      obtain ⟨-, k, -, hr⟩ := exists_placeOf hvw
      exact ⟨Int, inferInstance, inferInstance, i, j, k, order_of_placeOf hs ht, order_of_placeOf ht hr,
        order_of_placeOf hs hr⟩
  case string.string s t =>
    cases w <;> try cases hvw
    case string r => exact ⟨String, inferInstance, inferInstance, s, t, r, rfl, rfl, rfl⟩
  case bytes.bytes s t =>
    cases w <;> try cases hvw
    case bytes r => exact ⟨List UInt8, inferInstance, inferInstance, s, t, r, rfl, rfl, rfl⟩
  case bool.bool s t =>
    cases w <;> try cases hvw
    case bool r => exact ⟨Bool, inferInstance, inferInstance, s, t, r, rfl, rfl, rfl⟩
  case null.null =>
    cases w <;> try cases hvw
    case null => exact ⟨Bool, inferInstance, inferInstance, true, true, true, rfl, rfl, rfl⟩

/-- What is in some order compares. -/
theorem compares_of_order {o : Ordering} (h : v.order w = some o) : v.Compares w :=
  Option.isSome_of_eq_some h

/-- Comparing is transitive, since only values of one type compare. -/
theorem Compares.trans (huv : u.Compares v) (hvw : v.Compares w) : u.Compares w := by
  obtain ⟨_, _, _, _, _, _, -, -, huw⟩ := huv.exists_compare hvw
  exact compares_of_order huw

/-- The types in which values compare. -/
inductive ScalarType where
  | number
  | string
  | bytes
  | bool
  | null
deriving DecidableEq

/-- The type in which a value compares.  Lists and maps have none, and neither has a number whose text is
read as no number. -/
def scalarType? : Value → Option ScalarType
  | .number text => (placeOf text).map fun _ => .number
  | .string _ => some .string
  | .bytes _ => some .bytes
  | .bool _ => some .bool
  | .null => some .null
  | .list _ | .map _ => none

/-- **Two values compare exactly if they are of one scalar type.** -/
theorem order_ne_none_iff :
    v.order w ≠ none ↔ ∃ type, v.scalarType? = some type ∧ w.scalarType? = some type := by
  cases v <;> cases w
  case number.number s t =>
    rw [order_numbers, scalarType?, scalarType?]
    cases placeOf s <;> cases placeOf t <;> simp
  all_goals simp [order, scalarType?]

/-- A value is equal to itself, if it compares with itself. -/
theorem order_self (v : Value) : v.order v = none ∨ v.order v = some .eq := by
  have hswap := order_swap v v
  cases h : v.order v with
  | none => exact .inl rfl
  | some o =>
      rw [h] at hswap
      cases o with
      | eq => exact .inr rfl
      | lt => cases hswap
      | gt => cases hswap

/-- **Less is transitive.** -/
theorem order_lt_trans (huv : u.order v = some .lt) (hvw : v.order w = some .lt) :
    u.order w = some .lt := by
  obtain ⟨α, _, _, x, y, z, hxy, hyz, hxz⟩ :=
    (compares_of_order huv).exists_compare (compares_of_order hvw)
  have hlt : compare x y = .lt := Option.some.inj (hxy.symm.trans huv)
  have hlt' : compare y z = .lt := Option.some.inj (hyz.symm.trans hvw)
  rw [hxz, Std.TransCmp.lt_trans hlt hlt']

/-- **Equal values compare alike with every value.** -/
theorem order_congr (h : u.order v = some .eq) (w : Value) : u.order w = v.order w := by
  have huv := compares_of_order h
  by_cases hvw : v.Compares w
  · obtain ⟨α, _, _, x, y, z, hxy, hyz, hxz⟩ := huv.exists_compare hvw
    have heq : compare x y = .eq := Option.some.inj (hxy.symm.trans h)
    rw [hxz, hyz, Std.TransCmp.congr_left heq]
  · -- where the one does not compare, the other would compare by way of it
    have huw : ¬ u.Compares w := fun huw => hvw (huv.symm.trans huw)
    rw [Option.not_isSome_iff_eq_none.mp huw, Option.not_isSome_iff_eq_none.mp hvw]

end RecordStore.Value
