import RecordStore.Expression.ConditionHolding
import RecordStore.Proofs.Value.Order

/-!
# Equality in conditions

A condition takes two values as equal by two rules: by their order where they have one, and by what they
are made of where they have none.  So `1` and `1.0` are equal as numbers, though lists of them are not,
and a number whose text spells none is equal to itself only.  The two rules fit together because what is
made alike is never less or greater, and because equal values compare alike with every third one.

* `Value.same_iff` — the two rules as one: values are made alike, or their order is that of equals;
* `Comparison.equivalence_equal` — equality is an equivalence;
* `Value.order_and_equality_laws` — the laws of the order, and how equality goes with them.
-/

namespace RecordStore

namespace Value

variable {a b c : Value}

/-- Values that are made alike are neither less nor greater. -/
theorem order_of_eq (h : a = b) : a.order b ≠ some .lt ∧ a.order b ≠ some .gt := by
  obtain rfl := h
  rcases order_self a with h | h <;> simp [h]

/-- **Two values are equal if they are made alike or their order says so.** -/
theorem same_iff : a.same b ↔ a = b ∨ a.order b = some .eq := by
  unfold same
  cases h : a.order b with
  | none => simp
  | some o =>
      cases o with
      | eq => simp
      | lt => simpa using fun heq => (order_of_eq heq).1 h
      | gt => simpa using fun heq => (order_of_eq heq).2 h

theorem same_symm (h : a.same b) : b.same a := by
  rw [same_iff] at h ⊢
  rcases h with rfl | h
  · exact .inl rfl
  · rw [order_swap a b, h]
    exact .inr rfl

/-- Equality is transitive, also where it passes from one rule to the other. -/
theorem same_trans (hab : a.same b) (hbc : b.same c) : a.same c := by
  rw [same_iff] at hab hbc ⊢
  rcases hab with rfl | hab
  · exact hbc
  · rcases hbc with rfl | hbc
    · exact .inr hab
    · exact .inr ((order_congr hab c).trans hbc)

end Value

/-- **Equality in conditions is an equivalence.** -/
theorem Comparison.equivalence_equal : Equivalence fun a b => Comparison.equal.holds a b = true where
  refl _ := Value.same_iff.mpr (.inl rfl)
  symm := Value.same_symm
  trans := Value.same_trans

namespace Value

/-- **The laws of order and equality.**  Exchanging two values reverses their order, and they compare
either both ways or neither way: both ways if they are of one scalar type, of which a number is only if
its text is read as one.  Less is transitive, and equal values compare alike with every value.  What is
made alike is neither less nor greater.  In conditions, equality is an equivalence on all values, and
inequality is its negation: what is found for two operands is equal if it is made alike or its order says
so. -/
theorem order_and_equality_laws (a b c : Value) :
    b.order a = (a.order b).map Ordering.swap ∧
      (b.order a = none ↔ a.order b = none) ∧
      (a.order b ≠ none ↔ ∃ type, a.scalarType? = some type ∧ b.scalarType? = some type) ∧
      (a.order b = some .lt → b.order c = some .lt → a.order c = some .lt) ∧
      (a.order b = some .eq → a.order c = b.order c) ∧
      (a = b → a.order b ≠ some .lt ∧ a.order b ≠ some .gt) ∧
      (Equivalence fun v w => Comparison.equal.holds v w = true) ∧
      (∀ v w : Value, Comparison.notEqual.holds v w ↔ ¬ Comparison.equal.holds v w) ∧
      ∀ (ctx : Context) (item : Item) (left right : Operand),
        left.find ctx item = .ok (some a) → right.find ctx item = .ok (some b) →
          let alike := decide (a = b ∨ a.order b = some .eq)
          (Condition.compare .equal left right).holds ctx item = .ok alike ∧
            (Condition.compare .notEqual left right).holds ctx item = .ok (!alike) := by
  have hswap : b.order a = (a.order b).map Ordering.swap := order_swap a b
  refine ⟨hswap, ?_, order_ne_none_iff, order_lt_trans, fun h => order_congr h c, order_of_eq,
    Comparison.equivalence_equal, ?_, ?_⟩
  · rw [hswap, Option.map_eq_none_iff]
  · intro v w
    simp [Comparison.holds]
  · intro ctx item left right hleft hright alike
    have hsame : a.same b = alike := Bool.eq_iff_iff.mpr (by simp [same_iff, alike])
    rw [← hsame]
    simp only [Condition.holds, hleft, hright]
    exact ⟨rfl, rfl⟩

/-- Numbers with odd texts: an infinity beside finite numbers, two texts of one number, and two that
spell none. -/
theorem order_and_equality_laws_oddTexts :
    let one := Value.number "1"
    let spelledLong := Value.number "+1.0e0"
    let ctx : Context := ⟨.empty, OrderedDict.empty.insert ":one" spelledLong⟩
    let item : Item := ⟨[("size", one)]⟩
    one.order spelledLong = some .eq ∧
      one.order (.number "inf") = spelledLong.order (.number "inf") ∧
      (number "-5").order (.number "inf") = some .lt ∧
      (one.order one ≠ some .lt ∧ one.order one ≠ some .gt) ∧
      (number "NaN").order (.number "NaN") = none ∧ (number "1_0").order one = none ∧
      Comparison.equal.holds (.list [.number "NaN"]) (.list [.number "NaN"]) ∧
      (Condition.compare .equal (.path ["size"]) (.value ":one")).holds ctx item = .ok true ∧
      (Condition.compare .notEqual (.path ["size"]) (.value ":one")).holds ctx item = .ok false := by
  intro one spelledLong ctx item
  have heq : one.order spelledLong = some .eq := by decide +kernel
  have hbelow : (number "-5").order one = some .lt := by decide +kernel
  have habove : one.order (.number "inf") = some .lt := by decide +kernel
  have hnan : (number "NaN").scalarType? = none := by decide +kernel
  have hnone : (number "1_0").scalarType? = none := by decide +kernel
  obtain ⟨-, -, -, -, hcongr, -, hequiv, -, hfound⟩ :=
    order_and_equality_laws one spelledLong (.number "inf")
  obtain ⟨-, -, -, htrans, -⟩ := order_and_equality_laws (.number "-5") one (.number "inf")
  obtain ⟨-, -, -, -, -, hmade, -⟩ := order_and_equality_laws one one one
  obtain ⟨-, -, hcompareNaN, -⟩ := order_and_equality_laws (.number "NaN") (.number "NaN") one
  obtain ⟨-, -, hcompareBlank, -⟩ := order_and_equality_laws (.number "1_0") one one
  have hoddNaN : (number "NaN").order (.number "NaN") = none := by
    simpa [hnan] using hcompareNaN
  have hoddBlank : (number "1_0").order one = none := by
    simpa [hnone] using hcompareBlank
  obtain ⟨hequal, hunequal⟩ := hfound ctx item (.path ["size"]) (.value ":one") rfl rfl
  simp only [heq, or_true, decide_true, Bool.not_true] at hequal hunequal
  exact ⟨heq, hcongr heq, htrans hbelow habove, hmade rfl, hoddNaN, hoddBlank, hequiv.refl _, hequal,
    hunequal⟩

end Value

end RecordStore
