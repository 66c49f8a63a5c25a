import Mathlib.Algebra.Group.Int.Defs
import Mathlib.Algebra.Group.Nat.Defs
import Mathlib.Data.List.TakeWhile
import RecordStore.Expression.UpdateApplying

/-!
# Whole numbers in floating point

Numbers are kept as texts, and they are compared and added in floating point.  Up to 2^53 in magnitude
this is exact for whole numbers: the text of one is read as it, sums of them are not rounded, and two of
them compare as equal only if they are.

What carries this is that rounding keeps every count of units that is a multiple of the spacing there
(`roundUnits_of_dvd`), and a whole number is a multiple of a large power of two.

* `Binary64.IsWhole` — a floating-point number is a whole number;
* `Value.IsInt` — a value is read as a whole number, however it is written;
* `Value.toBinary64?_ofInt` — the text of any whole number is read as the number nearest to it;
* `Value.isInt_ofInt`, `Value.same_iff_of_isInt`, `Value.exists_add` — writing, comparing and
  counting up.
-/

namespace RecordStore

namespace Binary64

/-- A floating-point number is a whole number. -/
def IsWhole (x : Binary64) (i : Int) : Prop :=
  ∃ negative units, x = .finite negative units ∧ signed negative units = i * one

/-- One is a power of two; which one does not matter here. -/
theorem exists_one_eq_pow : ∃ e, one = 2 ^ e := by
  unfold one
  generalize 1074 = e
  exact ⟨e, rfl⟩

theorem one_pos : 0 < one := by
  obtain ⟨e, he⟩ := exists_one_eq_pow
  rw [he]
  exact Nat.two_pow_pos e

/-- A count of units that is a multiple of the spacing there needs no rounding. -/
theorem roundUnits_of_dvd {n : Nat} (h : Nat.pow 2 (n.log2 + 1 - precision) ∣ n) :
    roundUnits n 1 = n := by
  obtain ⟨k, hk⟩ := h
  have hpos : 0 < Nat.pow 2 (n.log2 + 1 - precision) := Nat.two_pow_pos _
  simp only [roundUnits, Nat.div_one, Nat.one_mul]
  generalize Nat.pow 2 (n.log2 + 1 - precision) = spacing at hk hpos
  simp [roundHalfEven, hpos, hk, Nat.mul_comm]

/-- A number with few significant bits is a multiple of the spacing there. -/
theorem spacing_dvd {k e : Nat} (h : k ≤ 2 ^ precision) :
    2 ^ ((k * 2 ^ e).log2 + 1 - precision) ∣ k * 2 ^ e := by
  have hpos : 0 < 2 ^ e := Nat.two_pow_pos e
  obtain hlt | rfl := Nat.lt_or_eq_of_le h
  · refine Nat.dvd_trans (Nat.pow_dvd_pow 2 ?_) (Nat.dvd_mul_left _ _)
    by_cases hzero : k * 2 ^ e = 0
    · rw [hzero]
      exact Nat.le_trans (by decide) (Nat.zero_le e)
    · have hbound : k * 2 ^ e < 2 ^ (precision + e) := by
        rw [Nat.pow_add]
        exact Nat.mul_lt_mul_of_pos_right hlt hpos
      have hlog := (Nat.log2_lt hzero).mpr hbound
      omega
  · rw [← Nat.pow_add, Nat.log2_two_pow]
    exact Nat.pow_dvd_pow 2 (by unfold precision; omega)

/-- A whole number up to 2^53 needs no rounding. -/
theorem roundUnits_mul_one {k : Nat} (h : k ≤ 2 ^ precision) :
    roundUnits (k * one) 1 = k * one := by
  obtain ⟨e, he⟩ := exists_one_eq_pow
  rw [he]
  exact roundUnits_of_dvd (spacing_dvd h)

/-- A whole number up to 2^53 is not too large for the format. -/
theorem mul_one_lt_limit {k : Nat} (h : k ≤ 2 ^ precision) : k * one < limit := by
  have hbound : 2 ^ precision * one < limit := by decide +kernel
  exact Nat.lt_of_le_of_lt (Nat.mul_le_mul_right one h) hbound

theorem ofUnits_mul_one {k : Nat} (h : k ≤ 2 ^ precision) (negative : Bool) :
    ofUnits negative (k * one) 1 = .finite negative (k * one) := by
  rw [ofUnits, roundUnits_mul_one h]
  exact if_pos (mul_one_lt_limit h)

/-- A sign applied to a multiple. -/
theorem signed_mul (negative : Bool) (k unit : Nat) :
    signed negative (k * unit) = signed negative k * unit := by
  cases negative with
  | false => exact Int.natCast_mul k unit
  | true => exact (congrArg Neg.neg (Int.natCast_mul k unit)).trans (Int.neg_mul _ _).symm

theorem natAbs_signed (negative : Bool) (k : Nat) : (signed negative k).natAbs = k := by
  cases negative with
  | false => exact Int.natAbs_natCast k
  | true => exact (Int.natAbs_neg k).trans (Int.natAbs_natCast k)

theorem signed_natAbs (i : Int) : signed (i < 0) i.natAbs = i := by
  by_cases hneg : i < 0
  · have habs : (i.natAbs : Int) = -i := by omega
    simp only [signed, hneg, decide_true, if_true, habs, Int.neg_neg]
  · have habs : (i.natAbs : Int) = i := by omega
    simp only [signed, hneg, decide_false, Bool.false_eq_true, if_false, habs]

/-- The magnitude of a multiple. -/
theorem eq_natAbs_mul {negative : Bool} {magnitude unit : Nat} {i : Int}
    (h : signed negative magnitude = i * unit) : magnitude = i.natAbs * unit := by
  have habs := congrArg Int.natAbs h
  rw [natAbs_signed, Int.natAbs_mul, Int.natAbs_natCast] at habs
  exact habs

namespace IsWhole

variable {x y : Binary64} {i j : Int}

/-- Whole numbers compare as numbers do. -/
theorem order_eq (hx : x.IsWhole i) (hy : y.IsWhole j) :
    order x y = some (compare (i * one) (j * one)) := by
  obtain ⟨s, u, rfl, hi⟩ := hx
  obtain ⟨t, v, rfl, hj⟩ := hy
  rw [order, position, position, hi, hj]
  all_goals simp

/-- Sums of whole numbers up to 2^53 are exact. -/
theorem add (hx : x.IsWhole i) (hy : y.IsWhole j) (hsum : (i + j).natAbs ≤ 2 ^ precision) :
    (Binary64.add x y).IsWhole (i + j) := by
  obtain ⟨s, u, rfl, hi⟩ := hx
  obtain ⟨t, v, rfl, hj⟩ := hy
  have htotal : signed s u + signed t v = (i + j) * one := by rw [hi, hj, Int.add_mul]
  rw [Binary64.add]
  by_cases hzero : signed s u + signed t v = 0
  · simp only [hzero, if_true]
    exact ⟨_, _, rfl, by rw [← htotal, hzero]; cases s <;> cases t <;> rfl⟩
  · have habs : (signed s u + signed t v).natAbs = (i + j).natAbs * one := by
      rw [htotal, Int.natAbs_mul, Int.natAbs_natCast]
    have hsign : decide (signed s u + signed t v < 0) = decide (i + j < 0) := by
      have hone : (0 : Int) < one := Int.natCast_pos.mpr one_pos
      have hlt := @Int.mul_lt_mul_right one (i + j) 0 hone
      rw [Int.zero_mul] at hlt
      simp only [htotal, hlt]
    simp only [hzero, if_false, habs, ofUnits_mul_one hsum, hsign]
    refine ⟨_, _, rfl, ?_⟩
    rw [signed_mul, signed_natAbs]

/-- A whole number below 2^53 in magnitude is told exactly. -/
theorem exactInt?_eq (hx : x.IsWhole i) :
    x.exactInt? = if i.natAbs < 2 ^ precision then some i else none := by
  obtain ⟨s, u, rfl, hi⟩ := hx
  have hu : u = i.natAbs * one := eq_natAbs_mul hi
  have hmod : u % one = 0 := by rw [hu, Nat.mul_mod_left]
  have hdiv : u / one = i.natAbs := by rw [hu, Nat.mul_div_cancel _ one_pos]
  have hsigned : signed s (u / one) = i := by
    have hmul : signed s (u / one) * one = i * one := by
      rw [← signed_mul, hdiv, ← hu, hi]
    exact (Int.mul_eq_mul_right_iff (Int.natCast_ne_zero.mpr (Nat.ne_of_gt one_pos))).mp hmul
  have hbound : u < Nat.pow 2 precision * one ↔ i.natAbs < 2 ^ precision := by
    rw [hu]
    exact Nat.mul_lt_mul_right one_pos
  simp only [exactInt?, hmod, hsigned, hbound, true_and]

end IsWhole

end Binary64

namespace Literal

/-- Digits alone are a decimal magnitude without an exponent. -/
theorem magnitude?_of_digits {cs : List Char} (hne : cs ≠ []) (h : ∀ c ∈ cs, c.isDigit) :
    magnitude? cs = some ⟨Nat.ofDigitChars 10 cs 0, 0⟩ := by
  have htake : cs.takeWhile Char.isDigit = cs := by
    rw [List.takeWhile_eq_self_iff]
    exact h
  have hdrop : cs.dropWhile Char.isDigit = [] := by
    rw [List.dropWhile_eq_nil_iff]
    exact h
  simp only [magnitude?, htake, hdrop, List.append_nil, digits?, exponent?]
  rw [if_pos ⟨hne, List.all_eq_true.mpr h⟩]
  rfl

/-- No digit begins one of the words for numbers that are not finite. -/
theorem toLower_ne_of_isDigit {c : Char} (h : c.isDigit) : c.toLower ≠ 'i' ∧ c.toLower ≠ 'n' := by
  have below : c.toNat < 128 := by
    simp only [Char.isDigit, Bool.and_eq_true, decide_eq_true_eq] at h
    have hhigh : c.toNat ≤ 57 := h.2
    omega
  have all : ∀ n < 128, (Char.ofNat n).isDigit →
      (Char.ofNat n).toLower ≠ 'i' ∧ (Char.ofNat n).toLower ≠ 'n' := by
    decide +kernel
  have hc := all c.toNat below
  rw [Char.ofNat_toNat] at hc
  exact hc h

/-- A sign and digits after it are read as the number that the digits spell. -/
theorem binary64?_of_digits {text : String} {negative : Bool} {cs : List Char}
    (hsign : splitSign text.toList = (negative, cs)) (hne : cs ≠ []) (h : ∀ c ∈ cs, c.isDigit) :
    binary64? text =
      some ((⟨Nat.ofDigitChars 10 cs 0, 0⟩ : Decimal).toBinary64 negative cs.length) := by
  obtain ⟨c, rest, rfl⟩ := List.exists_cons_of_ne_nil hne
  obtain ⟨hi, hn⟩ := toLower_ne_of_isDigit (h c List.mem_cons_self)
  have hinf : ((c :: rest).map Char.toLower) ≠ "inf".toList := by
    intro heq
    exact hi (List.cons.inj heq).1
  have hinfinity : ((c :: rest).map Char.toLower) ≠ "infinity".toList := by
    intro heq
    exact hi (List.cons.inj heq).1
  have hnan : ((c :: rest).map Char.toLower) ≠ "nan".toList := by
    intro heq
    exact hn (List.cons.inj heq).1
  simp only [binary64?, hsign, magnitude?_of_digits hne h]
  rw [if_neg (by simp only [hinf, hinfinity, or_self, not_false_eq_true]), if_neg hnan]
  rfl

end Literal

/-- A decimal magnitude without an exponent is read as the number nearest to it. -/
theorem Decimal.toBinary64_of_exponent_zero (k : Nat) (negative : Bool) (width : Nat) :
    (⟨k, 0⟩ : Decimal).toBinary64 negative width = Binary64.ofUnits negative (k * Binary64.one) 1 := by
  by_cases hzero : k = 0
  · subst hzero
    rw [Binary64.ofUnits_mul_one (Nat.zero_le _), Nat.zero_mul, toBinary64, if_pos rfl]
  · have hunits : (⟨k, 0⟩ : Decimal).units = Binary64.roundUnits (k * Binary64.one) 1 := by
      have hpower : k * Nat.pow 10 (0 : Int).toNat = k := Nat.mul_one k
      simp only [units, Int.le_refl, if_true, hpower]
    have hlow : ¬ (400 : Int) < 0 := by decide
    have hwidth : ¬ ((0 : Int) + width < -400) := by omega
    simp only [toBinary64, hzero, hunits, hlow, hwidth, if_false, Binary64.ofUnits]

namespace Value

/-- A value is read as a whole number, however it is written. -/
def IsInt (v : Value) (i : Int) : Prop := ∃ x, v.toBinary64? = some x ∧ x.IsWhole i

/-- The text of a whole number: its digits, after a minus sign if it is negative. -/
theorem splitSign_toString (i : Int) :
    Literal.splitSign (toString i).toList = (decide (i < 0), Nat.toDigits 10 i.natAbs) := by
  cases i with
  | ofNat n =>
      have htext : (toString (Int.ofNat n)).toList = Nat.toDigits 10 n := by
        change (toString n).toList = _
        rw [Nat.toString_eq_ofList_toDigits, String.toList_ofList]
      have hdigits : (Nat.toDigits 10 n).all Char.isDigit := List.all_eq_true.mpr fun c hc =>
        Nat.isDigit_of_mem_toDigits (by decide) (by decide) hc
      rw [htext, Literal.splitSign_of_digits hdigits]
      simp
  | negSucc n =>
      have htext : (toString (Int.negSucc n)).toList = '-' :: Nat.toDigits 10 (n + 1) := by
        change ("-" ++ toString (n + 1)).toList = _
        simp
      rw [htext]
      simp [Literal.splitSign]

/-- The text of a whole number is read as the floating-point number nearest to it. -/
theorem toBinary64?_ofInt (i : Int) : (ofInt i).toBinary64? = some (Binary64.ofInt i) := by
  have hdigits : ∀ c ∈ Nat.toDigits 10 i.natAbs, c.isDigit := fun c hc =>
    Nat.isDigit_of_mem_toDigits (by decide) (by decide) hc
  have hread := Literal.binary64?_of_digits (splitSign_toString i) Nat.toDigits_ne_nil hdigits
  rw [Nat.ofDigitChars_ten_toDigits, Decimal.toBinary64_of_exponent_zero] at hread
  exact hread

/-- The text of a whole number up to 2^53 is read as it. -/
theorem isInt_ofInt {i : Int} (h : i.natAbs ≤ 2 ^ Binary64.precision) : (ofInt i).IsInt i := by
  refine ⟨_, toBinary64?_ofInt i, _, _, Binary64.ofUnits_mul_one h _, ?_⟩
  rw [Binary64.signed_mul, Binary64.signed_natAbs]

/-- A sum that comes to 2^53 is written as that number. -/
theorem ofBinary64_exactBound :
    ofBinary64 (.finite false (2 ^ Binary64.precision * Binary64.one))
      = ofInt (2 ^ Binary64.precision) := by
  decide +kernel

section Whole

variable {a b : Value} {i j : Int}

theorem order_of_isInt (ha : a.IsInt i) (hb : b.IsInt j) :
    order a b = some (compare (i * Binary64.one) (j * Binary64.one)) := by
  obtain ⟨x, hx, hi⟩ := ha
  obtain ⟨y, hy, hj⟩ := hb
  rw [← hi.order_eq hj]
  cases a <;> cases b <;> simp_all [toBinary64?, order]

/-- **Whole numbers are the same value only if they are the same number.** -/
theorem same_iff_of_isInt (ha : a.IsInt i) (hb : b.IsInt j) : a.same b = true ↔ i = j := by
  have hone : (Binary64.one : Int) ≠ 0 := Int.natCast_ne_zero.mpr (Nat.ne_of_gt Binary64.one_pos)
  rw [same, order_of_isInt ha hb, Ordering.isEq_iff_eq_eq, Std.compare_eq_iff_eq]
  exact Int.mul_eq_mul_right_iff hone

/-- A whole number below 2^53 in magnitude is written in its digits. -/
theorem ofComputed_eq {x : Binary64} (hx : x.IsWhole i) (h : i.natAbs < 2 ^ Binary64.precision) :
    ofComputed x = ofInt i := by
  unfold ofComputed
  rw [hx.exactInt?_eq, if_pos h]

/-- A whole number up to 2^53 is written so that it is read again. -/
theorem isInt_ofComputed {x : Binary64} (hx : x.IsWhole i) (hlow : -(2 ^ Binary64.precision) < i)
    (hhigh : i ≤ 2 ^ Binary64.precision) : (ofComputed x).IsInt i := by
  by_cases hbelow : i.natAbs < 2 ^ Binary64.precision
  · rw [ofComputed_eq hx hbelow]
    exact isInt_ofInt (Nat.le_of_lt hbelow)
  · have hi : i = 2 ^ Binary64.precision := by
      unfold Binary64.precision at *
      omega
    subst hi
    have hexact := hx.exactInt?_eq
    obtain ⟨s, u, rfl, hu⟩ := hx
    have habs : ((2 : Int) ^ Binary64.precision).natAbs = 2 ^ Binary64.precision := rfl
    have hunits := Binary64.eq_natAbs_mul hu
    rw [habs] at hunits
    have hpositive : s = false := by
      cases s with
      | false => rfl
      | true =>
          have hone := Binary64.one_pos
          simp only [Binary64.signed, if_true, Binary64.precision] at hu
          omega
    unfold ofComputed
    rw [hexact, if_neg hbelow]
    change (ofBinary64 (.finite s u)).IsInt _
    rw [hpositive, hunits, ofBinary64_exactBound]
    exact isInt_ofInt (Nat.le_of_eq habs)

/-- **Counting up.**  Sums of whole numbers are exact up to 2^53. -/
theorem exists_add (ha : a.IsInt i) (hb : b.IsInt j) (hlow : -(2 ^ Binary64.precision) < i + j)
    (hhigh : i + j ≤ 2 ^ Binary64.precision) :
    ∃ x y, a.toBinary64? = some x ∧ b.toBinary64? = some y ∧ (ofComputed (x.add y)).IsInt (i + j) := by
  obtain ⟨x, hx, hi⟩ := ha
  obtain ⟨y, hy, hj⟩ := hb
  have hsum : (i + j).natAbs ≤ 2 ^ Binary64.precision := by
    unfold Binary64.precision at *
    omega
  exact ⟨x, y, hx, hy, isInt_ofComputed (hi.add hj hsum) hlow hhigh⟩

/-- Below 2^53 in magnitude, sums of whole numbers are written in their digits. -/
theorem exists_add_eq_ofInt (ha : a.IsInt i) (hb : b.IsInt j)
    (h : (i + j).natAbs < 2 ^ Binary64.precision) :
    ∃ x y, a.toBinary64? = some x ∧ b.toBinary64? = some y ∧ ofComputed (x.add y) = ofInt (i + j) := by
  obtain ⟨x, hx, hi⟩ := ha
  obtain ⟨y, hy, hj⟩ := hb
  exact ⟨x, y, hx, hy, ofComputed_eq (hi.add hj (Nat.le_of_lt h)) h⟩

end Whole

end Value

end RecordStore
