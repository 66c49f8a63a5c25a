import RecordStore.Proofs.Number.Whole

/-!
# Rounding whole numbers

A whole number is kept as its digits, and reading them gives the floating-point number nearest to it.
Beyond 2^53 in magnitude several whole numbers share one.

Two facts about rounding carry everything here: it keeps the order (`roundUnits_mono`), and it moves a
number by at most half of the spacing there (`roundUnits_near`).

* `Literal.wholeNumber?_toString`, `Literal.int64?_toString` — a whole number is read back from its digits;
* `Binary64.isFinite_ofInt` — this is finite for whole numbers up to 2^64 in magnitude;
* `Binary64.order_ofInt` — whole numbers compare as they do, or as equal if they are read as one number;
* `Binary64.eq_of_ofInt_eq`, `Binary64.near_of_ofInt_eq` — which whole numbers can be read as one.
-/

namespace RecordStore

namespace Binary64

section RoundHalfEven

variable {m n den : Nat}

/-- The nearest whole number is one of the two around. -/
theorem roundHalfEven_bounds (n den : Nat) :
    n / den ≤ roundHalfEven n den ∧ roundHalfEven n den ≤ n / den + 1 := by
  simp only [roundHalfEven]
  split
  · omega
  split
  · omega
  split <;> omega

/-- A multiple is kept. -/
theorem roundHalfEven_mul (k : Nat) (h : 0 < den) : roundHalfEven (k * den) den = k := by
  simp [roundHalfEven, h]

/-- Rounding to a whole number keeps the order. -/
theorem roundHalfEven_mono (h : m ≤ n) : roundHalfEven m den ≤ roundHalfEven n den := by
  have hquotient : m / den ≤ n / den := Nat.div_le_div_right h
  obtain hlt | heq := Nat.lt_or_eq_of_le hquotient
  · have hm := (roundHalfEven_bounds m den).2
    have hn := (roundHalfEven_bounds n den).1
    omega
  · have hrest : m % den ≤ n % den := by
      have hm := Nat.div_add_mod m den
      have hn := Nat.div_add_mod n den
      rw [heq] at hm
      omega
    simp only [roundHalfEven, heq]
    grind

/-- Rounding to a multiple moves a number by at most half of the unit. -/
theorem roundHalfEven_near (n : Nat) (h : 0 < den) :
    2 * (roundHalfEven n den * den) ≤ 2 * n + den ∧ 2 * n ≤ 2 * (roundHalfEven n den * den) + den := by
  have hn := Nat.div_add_mod n den
  have hrest := Nat.mod_lt n h
  rw [Nat.mul_comm] at hn
  have hup : (n / den + 1) * den = n / den * den + den := Nat.succ_mul _ _
  simp only [roundHalfEven]
  split
  · omega
  split
  · rw [hup]
    omega
  split
  · omega
  · rw [hup]
    omega

end RoundHalfEven

/-- The distance of the numbers with 53 significant bits around a count of units. -/
def spacing (n : Nat) : Nat := Nat.pow 2 (n.log2 + 1 - precision)

theorem spacing_pos (n : Nat) : 0 < spacing n := Nat.two_pow_pos _

theorem roundUnits_eq (n : Nat) : roundUnits n 1 = roundHalfEven n (spacing n) * spacing n := by
  simp only [roundUnits, spacing, Nat.div_one, Nat.one_mul]

/-- Rounding moves a count of units by at most half of the spacing there. -/
theorem roundUnits_near (n : Nat) :
    2 * roundUnits n 1 ≤ 2 * n + spacing n ∧ 2 * n ≤ 2 * roundUnits n 1 + spacing n := by
  rw [roundUnits_eq]
  exact roundHalfEven_near n (spacing_pos n)

/-- A multiple of the spacing that is not exceeded is not exceeded by rounding either. -/
theorem roundUnits_le_of_dvd {n bound : Nat} (hdvd : spacing n ∣ bound) (h : n ≤ bound) :
    roundUnits n 1 ≤ bound := by
  obtain ⟨k, rfl⟩ := hdvd
  rw [roundUnits_eq, Nat.mul_comm (spacing n) k] at *
  have hle : roundHalfEven n (spacing n) ≤ roundHalfEven (k * spacing n) (spacing n) :=
    roundHalfEven_mono h
  rw [roundHalfEven_mul k (spacing_pos n)] at hle
  exact Nat.mul_le_mul_right _ hle

/-- A multiple of the spacing that is reached is reached by rounding too. -/
theorem le_roundUnits_of_dvd {n bound : Nat} (hdvd : spacing n ∣ bound) (h : bound ≤ n) :
    bound ≤ roundUnits n 1 := by
  obtain ⟨k, rfl⟩ := hdvd
  rw [roundUnits_eq, Nat.mul_comm (spacing n) k] at *
  have hle : roundHalfEven (k * spacing n) (spacing n) ≤ roundHalfEven n (spacing n) :=
    roundHalfEven_mono h
  rw [roundHalfEven_mul k (spacing_pos n)] at hle
  exact Nat.mul_le_mul_right _ hle

/-- Rounding keeps the order. -/
theorem roundUnits_mono {m n : Nat} (h : m ≤ n) : roundUnits m 1 ≤ roundUnits n 1 := by
  by_cases hm : m = 0
  · subst hm
    exact Nat.le_trans (Nat.le_of_eq (by decide)) (Nat.zero_le _)
  have hn : n ≠ 0 := by omega
  have hlog : m.log2 ≤ n.log2 := by
    rw [Nat.le_log2 hn]
    exact Nat.le_trans (Nat.log2_self_le hm) h
  obtain hlt | heq := Nat.lt_or_eq_of_le hlog
  · -- The power of two between them is a multiple of both spacings.
    have hbelow : roundUnits m 1 ≤ 2 ^ n.log2 := by
      refine roundUnits_le_of_dvd (Nat.pow_dvd_pow 2 ?_) ?_
      · unfold precision
        omega
      · exact Nat.le_of_lt ((Nat.log2_lt hm).mp hlt)
    have habove : 2 ^ n.log2 ≤ roundUnits n 1 :=
      le_roundUnits_of_dvd (Nat.pow_dvd_pow 2 (by unfold precision; omega)) (Nat.log2_self_le hn)
    exact Nat.le_trans hbelow habove
  · have hspacing : spacing m = spacing n := by rw [spacing, spacing, heq]
    rw [roundUnits_eq, roundUnits_eq, hspacing]
    exact Nat.mul_le_mul_right _ (roundHalfEven_mono h)

/-- A power of two needs no rounding. -/
theorem roundUnits_two_pow_mul_one (k : Nat) : roundUnits (2 ^ k * one) 1 = 2 ^ k * one := by
  obtain ⟨e, he⟩ := exists_one_eq_pow
  have hpower : 2 ^ k * one = 1 * 2 ^ (k + e) := by rw [he, Nat.one_mul, Nat.pow_add]
  rw [hpower]
  exact roundUnits_of_dvd (spacing_dvd (by decide))

/-- Whole numbers up to 2^64 are not too large for the format. -/
theorem roundUnits_lt_limit {k : Nat} (h : k ≤ 2 ^ 64) : roundUnits (k * one) 1 < limit := by
  have hmono : roundUnits (k * one) 1 ≤ roundUnits (2 ^ 64 * one) 1 :=
    roundUnits_mono (Nat.mul_le_mul_right one h)
  rw [roundUnits_two_pow_mul_one] at hmono
  have hbound : 2 ^ 64 * one < limit := by decide +kernel
  exact Nat.lt_of_le_of_lt hmono hbound

/-- Only zero is rounded to zero. -/
theorem roundUnits_mul_one_pos {k : Nat} (h : 0 < k) : 0 < roundUnits (k * one) 1 := by
  have hmono : roundUnits (2 ^ 0 * one) 1 ≤ roundUnits (k * one) 1 :=
    roundUnits_mono (Nat.mul_le_mul_right one h)
  rw [roundUnits_two_pow_mul_one] at hmono
  have hone := one_pos
  omega

/-- What is rounded to a magnitude below 2^53 is that magnitude. -/
theorem eq_of_roundUnits_eq {k l : Nat} (hk : k < 2 ^ precision)
    (h : roundUnits (k * one) 1 = roundUnits (l * one) 1) : k = l := by
  rw [roundUnits_mul_one (Nat.le_of_lt hk)] at h
  have hl : l ≤ 2 ^ precision := by
    by_contra hlarge
    have hmono : roundUnits (2 ^ precision * one) 1 ≤ roundUnits (l * one) 1 :=
      roundUnits_mono (Nat.mul_le_mul_right one (by omega))
    rw [roundUnits_two_pow_mul_one, ← h] at hmono
    have hle := Nat.le_of_mul_le_mul_right hmono one_pos
    omega
  rw [roundUnits_mul_one hl] at h
  exact Nat.eq_of_mul_eq_mul_right one_pos h

/-- Two magnitudes of at most 53 + t bits that are rounded to the same number differ by at most 2^t. -/
theorem le_add_of_roundUnits_eq {k l t : Nat} (hk : k < 2 ^ (precision + t))
    (hl : l < 2 ^ (precision + t)) (h : roundUnits (k * one) 1 = roundUnits (l * one) 1) :
    k ≤ l + 2 ^ t := by
  have hspacing (m : Nat) (hm : m < 2 ^ (precision + t)) : spacing (m * one) ≤ 2 ^ t * one := by
    obtain ⟨e, he⟩ := exists_one_eq_pow
    rw [he, ← Nat.pow_add]
    refine Nat.pow_le_pow_right (by decide) ?_
    by_cases hzero : m * 2 ^ e = 0
    · rw [hzero]
      exact Nat.le_trans (by decide) (Nat.zero_le _)
    · have hbound : m * 2 ^ e < 2 ^ (precision + t + e) := by
        rw [Nat.pow_add 2 (precision + t) e]
        exact Nat.mul_lt_mul_of_pos_right hm (Nat.two_pow_pos e)
      have hlog := (Nat.log2_lt hzero).mpr hbound
      omega
  have hnearK := (roundUnits_near (k * one)).2
  have hnearL := (roundUnits_near (l * one)).1
  have hspaceK := hspacing k hk
  have hspaceL := hspacing l hl
  have hmul : k * one ≤ (l + 2 ^ t) * one := by
    rw [Nat.add_mul]
    omega
  exact Nat.le_of_mul_le_mul_right hmul one_pos

/-- The magnitude that a whole number is read with: the nearest one, or the limit if that is too large. -/
def readMagnitude (k : Nat) : Nat := min (roundUnits (k * one) 1) limit

theorem readMagnitude_mono {k l : Nat} (h : k ≤ l) : readMagnitude k ≤ readMagnitude l := by
  have hround : roundUnits (k * one) 1 ≤ roundUnits (l * one) 1 :=
    roundUnits_mono (Nat.mul_le_mul_right one h)
  unfold readMagnitude
  omega

theorem limit_pos : 0 < limit := Nat.pos_of_ne_zero (by decide +kernel)

theorem readMagnitude_pos {k : Nat} (h : 0 < k) : 0 < readMagnitude k :=
  Nat.lt_min.mpr ⟨roundUnits_mul_one_pos h, limit_pos⟩

/-- A whole number is read as its sign and its magnitude. -/
theorem ofInt_eq (i : Int) :
    ofInt i = if readMagnitude i.natAbs < limit then .finite (i < 0) (readMagnitude i.natAbs)
      else .infinity (i < 0) := by
  unfold ofInt ofUnits readMagnitude
  generalize limit = bound
  simp only
  split
  case isTrue hlt => rw [if_pos (by omega), Nat.min_eq_left (Nat.le_of_lt hlt)]
  case isFalse hge => rw [if_neg (by omega)]

/-- Sign and magnitude determine the number that a whole number is read as. -/
theorem ofInt_congr {i j : Int} (hsign : i < 0 ↔ j < 0)
    (h : readMagnitude i.natAbs = readMagnitude j.natAbs) : ofInt i = ofInt j := by
  rw [ofInt_eq, ofInt_eq, h, decide_eq_decide.mpr hsign]

theorem position_ofInt (i : Int) : position (ofInt i) = signed (i < 0) (readMagnitude i.natAbs) := by
  have hlimit : readMagnitude i.natAbs ≤ limit := Nat.min_le_right _ _
  rw [ofInt_eq]
  split
  case isTrue => rfl
  case isFalse hge => rw [position, Nat.le_antisymm hlimit (Nat.le_of_not_lt hge)]

/-- Reading whole numbers keeps their order. -/
theorem position_ofInt_mono {i j : Int} (h : i ≤ j) : position (ofInt i) ≤ position (ofInt j) := by
  rw [position_ofInt, position_ofInt]
  by_cases hi : i < 0
  · by_cases hj : j < 0
    · have hle := readMagnitude_mono (show j.natAbs ≤ i.natAbs by omega)
      simp only [signed, hi, hj, decide_true, if_true]
      omega
    · simp only [signed, hi, hj, decide_true, decide_false, if_true, Bool.false_eq_true, if_false]
      omega
  · have hj : ¬ j < 0 := by omega
    have hle := readMagnitude_mono (show i.natAbs ≤ j.natAbs by omega)
    simp only [signed, hi, hj, decide_false, Bool.false_eq_true, if_false]
    omega

/-- Whole numbers that are read as numbers at one place have one sign and one magnitude. -/
theorem sign_and_magnitude_of_position_eq {i j : Int} (h : position (ofInt i) = position (ofInt j)) :
    (i < 0 ↔ j < 0) ∧ readMagnitude i.natAbs = readMagnitude j.natAbs := by
  rw [position_ofInt, position_ofInt] at h
  have hpos {n : Int} (hn : n < 0) : 0 < readMagnitude n.natAbs := readMagnitude_pos (by omega)
  by_cases hi : i < 0 <;> by_cases hj : j < 0
  · simp only [signed, hi, hj, decide_true, if_true] at h
    exact ⟨iff_of_true hi hj, by omega⟩
  · have hmagnitude := hpos hi
    simp only [signed, hi, hj, decide_true, decide_false, if_true, Bool.false_eq_true, if_false] at h
    omega
  · have hmagnitude := hpos hj
    simp only [signed, hi, hj, decide_true, decide_false, if_true, Bool.false_eq_true, if_false] at h
    omega
  · simp only [signed, hi, hj, decide_false, Bool.false_eq_true, if_false] at h
    exact ⟨iff_of_false hi hj, by omega⟩

theorem ofInt_ne_nan (i : Int) : ofInt i ≠ .nan := by
  rw [ofInt_eq]
  split <;> exact Binary64.noConfusion

/-- Numbers compare by their places. -/
theorem order_of_ne_nan {x y : Binary64} (hx : x ≠ .nan) (hy : y ≠ .nan) :
    order x y = some (compare x.position y.position) := by
  cases x <;> cases y <;> first | rfl | contradiction

/-- **Whole numbers compare as equal exactly if they are read as one number, and otherwise as they do.** -/
theorem order_ofInt (i j : Int) :
    order (ofInt i) (ofInt j) = some (if ofInt i = ofInt j then .eq else compare i j) := by
  rw [order_of_ne_nan (ofInt_ne_nan i) (ofInt_ne_nan j)]
  refine congrArg some ?_
  split
  case isTrue heq =>
    rw [heq]
    exact Std.ReflCmp.compare_self
  case isFalse hne =>
    have hplace : (ofInt i).position ≠ (ofInt j).position := fun h =>
      hne (ofInt_congr (sign_and_magnitude_of_position_eq h).1 (sign_and_magnitude_of_position_eq h).2)
    obtain hlt | rfl | hgt := Int.lt_trichotomy i j
    · have hle := position_ofInt_mono (Int.le_of_lt hlt)
      rw [Int.compare_eq_lt.mpr hlt, Int.compare_eq_lt.mpr (by omega)]
    · exact absurd rfl hne
    · have hle := position_ofInt_mono (Int.le_of_lt hgt)
      rw [Int.compare_eq_gt.mpr hgt, Int.compare_eq_gt.mpr (by omega)]

/-- Whole numbers up to 2^64 in magnitude are read as finite numbers. -/
theorem isFinite_ofInt {i : Int} (h : i.natAbs ≤ 2 ^ 64) : (ofInt i).isFinite := by
  simp only [ofInt, ofUnits]
  rw [if_pos (roundUnits_lt_limit h)]
  rfl

/-- Whole numbers up to 2^64 in magnitude that are read as one number have one sign, and their magnitudes
are rounded to one. -/
theorem roundUnits_eq_of_ofInt_eq {i j : Int} (hi : i.natAbs ≤ 2 ^ 64) (hj : j.natAbs ≤ 2 ^ 64)
    (h : ofInt i = ofInt j) :
    (i < 0 ↔ j < 0) ∧ roundUnits (i.natAbs * one) 1 = roundUnits (j.natAbs * one) 1 := by
  obtain ⟨hsign, hmagnitude⟩ := sign_and_magnitude_of_position_eq (congrArg position h)
  have hlimitI := roundUnits_lt_limit hi
  have hlimitJ := roundUnits_lt_limit hj
  unfold readMagnitude at hmagnitude
  exact ⟨hsign, by omega⟩

/-- A whole number below 2^53 in magnitude is read as no other one is. -/
theorem eq_of_ofInt_eq {i j : Int} (hi : i.natAbs < 2 ^ precision) (h : ofInt i = ofInt j) : i = j := by
  obtain ⟨hsign, hmagnitude⟩ := sign_and_magnitude_of_position_eq (congrArg position h)
  have hexact := roundUnits_mul_one (Nat.le_of_lt hi)
  have hlimit := mul_one_lt_limit (Nat.le_of_lt hi)
  have habs : i.natAbs = j.natAbs := by
    refine eq_of_roundUnits_eq hi ?_
    unfold readMagnitude at hmagnitude
    omega
  omega

/-- **Whole numbers of 64 bits that are read as one number differ by at most 2^11.** -/
theorem near_of_ofInt_eq {i j : Int} (hi : i.natAbs < 2 ^ 64) (hj : j.natAbs < 2 ^ 64)
    (h : ofInt i = ofInt j) : (i - j).natAbs ≤ 2 ^ 11 := by
  obtain ⟨hsign, hround⟩ := roundUnits_eq_of_ofInt_eq (Nat.le_of_lt hi) (Nat.le_of_lt hj) h
  have hup := le_add_of_roundUnits_eq (t := 11) hi hj hround
  have hdown := le_add_of_roundUnits_eq (t := 11) hj hi hround.symm
  omega

end Binary64

namespace Literal

/-- **A whole number is read back from its digits.** -/
theorem wholeNumber?_toString (i : Int) : wholeNumber? (toString i).toList = some i := by
  have hdigits : digits? (Nat.toDigits 10 i.natAbs) = some i.natAbs := by
    rw [digits?, if_pos ⟨Nat.toDigits_ne_nil, List.all_eq_true.mpr fun c hc =>
      Nat.isDigit_of_mem_toDigits (by decide) (by decide) hc⟩,
      Nat.ofDigitChars_ten_toDigits]
  simp only [wholeNumber?, Value.splitSign_toString, hdigits, Option.map_some, Binary64.signed_natAbs]

/-- A whole number is read as one of 64 bits exactly if it is one. -/
theorem int64?_toString (i : Int) :
    int64? (toString i) = if int64Min ≤ i ∧ i ≤ int64Max then some i else none := by
  rw [int64?, inRange?, wholeNumber?_toString, Option.filter_some]
  simp only [decide_eq_true_eq]

end Literal

end RecordStore
