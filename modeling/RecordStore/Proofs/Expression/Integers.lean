import RecordStore.Expression.ConditionHolding
import RecordStore.Proofs.Number.Rounding

/-!
# Integers in comparisons

Numbers are compared after their texts have been read as floating-point numbers.  Integers that are read as
one number therefore count as equal; all others compare as they do.  So an order is lost at most between
integers of 2^53 and more in magnitude, within 2^11 of each other if they have 64 bits, and it is never
turned around.

* `Binary64.comparedWith` — the integer that an integer counts as in a comparison with another one;
* `Value.order_ofInt`, `Comparison.holds_ofInt` — the order and the comparisons of two integers;
* `integers_compare` — what this says of orders and of conditions.
-/

namespace RecordStore

namespace Binary64

/-- What an integer counts as in a comparison with another one: as that one, if both are read as the same
number, and else as itself. -/
def comparedWith (i j : Int) : Int := if ofInt i = ofInt j then j else i

section ComparedWith

variable {i j : Int}

/-- Small integers count as themselves. -/
theorem comparedWith_eq_self (h : i.natAbs < 2 ^ precision ∨ j.natAbs < 2 ^ precision) :
    comparedWith i j = i := by
  unfold comparedWith
  split
  case isTrue heq =>
    obtain hi | hj := h
    · exact (eq_of_ofInt_eq hi heq).symm
    · exact eq_of_ofInt_eq hj heq.symm
  case isFalse => rfl

/-- Integers of 64 bits count as ones close to them. -/
theorem comparedWith_near (hi : i.natAbs < 2 ^ 64) (hj : j.natAbs < 2 ^ 64) :
    (comparedWith i j - i).natAbs ≤ 2 ^ 11 := by
  unfold comparedWith
  split
  case isTrue heq => exact near_of_ofInt_eq hj hi heq.symm
  case isFalse => simp

/-- An order that is seen is the right one, and none is seen exactly between different integers that are read
as the same number. -/
theorem compare_comparedWith_eq_iff :
    compare (comparedWith i j) j = compare i j ↔ (ofInt i = ofInt j → i = j) := by
  unfold comparedWith
  split
  case isTrue heq =>
    rw [Std.compare_self, eq_comm, Std.compare_eq_iff_eq]
    exact ⟨fun h _ => h, fun h => h heq⟩
  case isFalse hne => exact iff_of_true rfl fun heq => absurd heq hne

end ComparedWith

end Binary64

/-- Two integers compare as the floating-point numbers that their digits are read as. -/
theorem Value.order_ofInt (i j : Int) :
    (ofInt i).order (ofInt j) = some (compare (Binary64.comparedWith i j) j) := by
  have hi : Literal.binary64? (toString i) = some (Binary64.ofInt i) := toBinary64?_ofInt i
  have hj : Literal.binary64? (toString j) = some (Binary64.ofInt j) := toBinary64?_ofInt j
  simp only [ofInt, order, hi, hj]
  rw [Binary64.order_ofInt, Binary64.comparedWith]
  split
  case isTrue => rw [Std.compare_self]
  case isFalse => rfl

namespace Comparison

/-- Whether two integers stand in a comparison. -/
def relates : Comparison → Int → Int → Bool
  | .equal, i, j => i = j
  | .notEqual, i, j => i ≠ j
  | .lessThan, i, j => i < j
  | .lessOrEqual, i, j => i ≤ j
  | .greaterThan, i, j => j < i
  | .greaterOrEqual, i, j => j ≤ i

/-- **A comparison of integers gives the answer for the integers that they count as.** -/
theorem holds_ofInt (op : Comparison) (i j : Int) :
    op.holds (.ofInt i) (.ofInt j) = op.relates (Binary64.comparedWith i j) j := by
  have horder := Value.order_ofInt i j
  generalize Binary64.comparedWith i j = k at horder ⊢
  obtain hlt | rfl | hgt := Int.lt_trichotomy k j
  · rw [Int.compare_eq_lt.mpr hlt] at horder
    cases op <;> simp [holds, Value.same, horder, relates] <;> omega
  · rw [Std.compare_self] at horder
    cases op <;> simp [holds, Value.same, horder, relates]
  · rw [Int.compare_eq_gt.mpr hgt] at horder
    cases op <;> simp [holds, Value.same, horder, relates] <;> omega

end Comparison

/-- **Integers compare as numbers do, but for large ones that are read as one number.**

An integer counts in a comparison as itself, or as the other integer if both are read as the same
floating-point number.  The order of two integers is the right one exactly unless they are different and
read as the same.  This does not happen if one of the two is below 2^53 in magnitude, and integers of 64
bits count as ones within 2^11 of them.  A condition that compares what is found in a record has the answer
for the integers that those found count as. -/
theorem integers_compare (i j : Int) :
    (Value.ofInt i).order (.ofInt j) = some (compare (Binary64.comparedWith i j) j) ∧
      ((Value.ofInt i).order (.ofInt j) = some (compare i j) ↔
        (Binary64.ofInt i = Binary64.ofInt j → i = j)) ∧
      (i.natAbs < 2 ^ Binary64.precision ∨ j.natAbs < 2 ^ Binary64.precision →
        Binary64.comparedWith i j = i) ∧
      (i.natAbs < 2 ^ 64 → j.natAbs < 2 ^ 64 → (Binary64.comparedWith i j - i).natAbs ≤ 2 ^ 11) ∧
      ∀ (ctx : Context) (item : Item) (subject bound : Operand),
        subject.find ctx item = .ok (some (.ofInt i)) → bound.find ctx item = .ok (some (.ofInt j)) →
          (∀ op : Comparison, (Condition.compare op subject bound).holds ctx item
            = .ok (op.relates (Binary64.comparedWith i j) j)) ∧
          ∀ (high : Operand) (k : Int), high.find ctx item = .ok (some (.ofInt k)) →
            (Condition.between subject bound high).holds ctx item
              = .ok (decide (j ≤ Binary64.comparedWith i j ∧ Binary64.comparedWith i k ≤ k)) := by
  have horder := Value.order_ofInt i j
  refine ⟨horder, ?_, Binary64.comparedWith_eq_self, Binary64.comparedWith_near, ?_⟩
  · rw [horder, Option.some.injEq]
    exact Binary64.compare_comparedWith_eq_iff
  intro ctx item subject bound hsubject hbound
  refine ⟨?_, ?_⟩
  · intro op
    rw [← op.holds_ofInt i j, Condition.holds, hsubject, hbound]
    rfl
  · intro high k hhigh
    have hlow : Comparison.greaterOrEqual.holds (.ofInt i) (.ofInt j)
        = decide (j ≤ Binary64.comparedWith i j) := Comparison.holds_ofInt _ i j
    have hup : Comparison.lessOrEqual.holds (.ofInt i) (.ofInt k)
        = decide (Binary64.comparedWith i k ≤ k) := Comparison.holds_ofInt _ i k
    rw [Bool.decide_and, ← hlow, ← hup, Condition.holds, hsubject, hbound, hhigh]
    rfl

/-- The number 2^53, which counts as the number after it in a comparison with that one. -/
def views : Int := 2 ^ 53

/-- Placeholders for the number after it and for a small number. -/
def viewsContext : Context :=
  ⟨.empty, (OrderedDict.empty.insert ":next" (.ofInt (views + 1))).insert ":few" (.ofInt 2)⟩

/-- A record with 2^53 views passes a test for one more, and lies between few and one more. -/
theorem integers_compare_views :
    let item : Item := ⟨[("views", .ofInt views)]⟩
    (Condition.compare .equal (.path ["views"]) (.value ":next")).holds viewsContext item = .ok true ∧
      (Condition.between (.path ["views"]) (.value ":few") (.value ":next")).holds viewsContext item
        = .ok true ∧
      Binary64.comparedWith views 2 = views ∧
      (Binary64.comparedWith views (views + 1) - views).natAbs ≤ 2 ^ 11 := by
  intro item
  have hshared : Binary64.comparedWith views (views + 1) = views + 1 := by decide +kernel
  have hviews : Operand.find viewsContext item (.path ["views"]) = .ok (some (.ofInt views)) := by
    decide +kernel
  have hnext : Operand.find viewsContext item (.value ":next") = .ok (some (.ofInt (views + 1))) := by
    decide +kernel
  have hfew : Operand.find viewsContext item (.value ":few") = .ok (some (.ofInt 2)) := by
    decide +kernel
  obtain ⟨-, -, -, hnear, hnextHolds⟩ := integers_compare views (views + 1)
  obtain ⟨-, -, hsmall, -, hfewHolds⟩ := integers_compare views 2
  have hfewSelf := hsmall (.inr (by decide))
  have hequal := (hnextHolds _ _ _ _ hviews hnext).1 .equal
  have hbetween := (hfewHolds _ _ _ _ hviews hfew).2 _ _ hnext
  rw [hshared] at hequal hbetween
  rw [hfewSelf] at hbetween
  exact ⟨hequal, hbetween, hfewSelf, hnear (by decide) (by decide)⟩

/-- Integers of 64 bits need not compare as numbers do. -/
theorem not_integers_compare :
    ¬ ∀ i j : Int, Literal.int64Min ≤ i → i ≤ Literal.int64Max → Literal.int64Min ≤ j →
      j ≤ Literal.int64Max → (Value.ofInt i).order (.ofInt j) = some (compare i j) := by
  intro h
  have horder := h views (views + 1) (by decide) (by decide) (by decide) (by decide)
  have hshared : (Value.ofInt views).order (.ofInt (views + 1)) = some .eq := by decide +kernel
  rw [hshared] at horder
  exact absurd horder (by decide)

end RecordStore
