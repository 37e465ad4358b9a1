import Mathlib.Algebra.Group.Nat.Defs
import ScriptHost.Number.Binary64

/-!
# Integral numbers

A number that equals an integer is what that integer is rounded to: nothing is lost in rounding,
since the significand has room for it.  Only the sign of a zero does not come back.
-/

namespace ScriptHost

namespace Binary64

/-- Numbers that a comparison cannot tell apart, NaN being like NaN. -/
def Alike (x y : Binary64) : Prop := x.equals y = true ∨ x.isNaN = true ∧ y.isNaN = true

theorem Alike.refl (x : Binary64) : x.Alike x := by
  cases unordered : x.isNaN with
  | true => exact .inr ⟨unordered, unordered⟩
  | false =>
    refine .inl ?_
    simp [equals, unordered]

/-! ## Fields of the bits -/

theorem fraction_lt (x : Binary64) : x.fraction < leadingBit := Nat.mod_lt _ (by decide)

theorem biasedExponent_lt (x : Binary64) : x.biasedExponent < 2048 := Nat.mod_lt _ (by decide)

theorem toNat_bits (x : Binary64) :
    (if x.isNegative then signBit + (x.biasedExponent * leadingBit + x.fraction)
      else x.biasedExponent * leadingBit + x.fraction) = x.bits.toNat := by
  have small : x.bits.toNat < 18446744073709551616 := x.bits.toNat_lt
  cases sign : x.isNegative with
  | true =>
    have high : x.bits.toNat / signBit = 1 := by simpa [isNegative] using sign
    simp only [if_true, biasedExponent, fraction, leadingBit, signBit] at high ⊢
    omega
  | false =>
    have low : x.bits.toNat / signBit ≠ 1 := by simpa [isNegative] using sign
    simp only [Bool.false_eq_true, if_false, biasedExponent, fraction, leadingBit, signBit] at low ⊢
    omega

theorem withSign_fields (x : Binary64) :
    withSign x.isNegative (x.biasedExponent * leadingBit + x.fraction) = x := by
  rw [withSign, toNat_bits, UInt64.ofNat_toNat]

/-- A normal number is put together again from its sign, significand and exponent. -/
theorem encode_fields {x : Binary64} (finite : x.isFinite = true) (normal : x.biasedExponent ≠ 0) :
    encode x.isNegative x.significand x.exponent = x := by
  have bounded := x.fraction_lt
  have below : x.biasedExponent < 2047 := by
    have different : x.biasedExponent ≠ 2047 := by simpa [isFinite] using finite
    have small := x.biasedExponent_lt
    omega
  have significand : x.significand = leadingBit + x.fraction := by rw [significand, if_neg normal]
  have biased : (x.exponent + 1075).toNat = x.biasedExponent := by
    rw [exponent]
    omega
  have apart : x.significand ≠ 2 * leadingBit := by omega
  have large : ¬ x.significand < leadingBit := by omega
  have rest : x.significand - leadingBit = x.fraction := by omega
  rw [encode, if_neg apart]
  dsimp only
  rw [if_neg large, biased, if_pos below, rest, withSign_fields]

theorem isZero_iff {x : Binary64} :
    x.isZero = true ↔ x.biasedExponent = 0 ∧ x.fraction = 0 := by
  by_cases least : x.biasedExponent = 0
  · simp [isZero, isFinite, significand, least]
  · have positive : leadingBit ≠ 0 := by decide
    simp [isZero, significand, least, positive]

theorem zero_alike {x : Binary64} (isZero : x.isZero = true) : zero.Alike x := by
  obtain ⟨least, none⟩ := isZero_iff.1 isZero
  have ordered : x.isNaN = false := by simp [isNaN, least]
  have key : x.orderKey = 0 := by
    have bits := x.toNat_bits
    rw [least, none] at bits
    have rest : x.bits.toNat % signBit = 0 := by
      rw [← bits]
      cases x.isNegative <;> rfl
    simp [orderKey, rest]
  refine .inl ?_
  have zeroKey : zero.orderKey = 0 := by decide
  have zeroOrdered : zero.isNaN = false := by decide
  simp [equals, ordered, key, zeroKey, zeroOrdered]

/-! ## Rounding what fits -/

theorem roundDiv_mul (n : Nat) {den : Nat} (positive : 0 < den) : roundDiv (n * den) den = n := by
  simp [roundDiv, Nat.mul_div_cancel n positive, positive]

theorem floorLog2_one {n : Nat} (positive : n ≠ 0) : floorLog2 n 1 = (n.log2 : Nat) := by
  have guess : (n.log2 : Int) - Nat.log2 1 = Int.ofNat n.log2 := by
    have one : Nat.log2 1 = 0 := by decide
    rw [one]
    exact Int.sub_zero _
  have reached : 1 * Nat.pow 2 n.log2 ≤ n := by
    rw [Nat.one_mul]
    exact Nat.log2_self_le positive
  rw [floorLog2, guess]
  simp only [reached, decide_true, if_true]
  rfl

theorem log2_mul_pow {n : Nat} (positive : n ≠ 0) (shift : Nat) :
    (n * 2 ^ shift).log2 = n.log2 + shift := by
  have power : 0 < 2 ^ shift := Nat.pow_pos Nat.zero_lt_two
  have product : n * 2 ^ shift ≠ 0 := Nat.mul_ne_zero positive (Nat.ne_of_gt power)
  rw [Nat.log2_eq_iff product, Nat.add_right_comm, Nat.pow_add, Nat.pow_add]
  constructor
  · exact Nat.mul_le_mul_right _ (Nat.log2_self_le positive)
  · exact Nat.mul_lt_mul_of_pos_right Nat.lt_log2_self power

theorem log2_of_full {significand : Nat} (atLeast : leadingBit ≤ significand)
    (below : significand < 2 * leadingBit) : significand.log2 = 52 := by
  have positive : significand ≠ 0 := by
    rintro rfl
    exact absurd atLeast (by decide)
  rw [Nat.log2_eq_iff positive]
  exact ⟨atLeast, below⟩

/-- A full significand that is shifted to the left is found again. -/
theorem nearest_mul {significand : Nat} (atLeast : leadingBit ≤ significand)
    (below : significand < 2 * leadingBit) (power : Nat) :
    nearest 53 (-1074) (significand * Nat.pow 2 power) 1 = (significand, Int.ofNat power) := by
  have positive : significand ≠ 0 := by
    rintro rfl
    exact absurd atLeast (by decide)
  have room : 0 < Nat.pow 2 power := Nat.pow_pos Nat.zero_lt_two
  have shifted : significand * Nat.pow 2 power ≠ 0 := Nat.mul_ne_zero positive (Nat.ne_of_gt room)
  have log : (significand * Nat.pow 2 power).log2 = 52 + power := by
    rw [Nat.pow_eq, log2_mul_pow positive, log2_of_full atLeast below]
  have exponent : max (-1074) (floorLog2 (significand * Nat.pow 2 power) 1 - (53 - 1 : Nat)) =
      Int.ofNat power := by
    rw [floorLog2_one shifted, log]
    simp only [Int.ofNat_eq_natCast]
    omega
  rw [nearest, exponent]
  simp only [Nat.one_mul]
  rw [roundDiv_mul significand room]

/-- A natural number with a full significand is shifted to it. -/
theorem nearest_div {n shift : Nat} (atLeast : leadingBit ≤ n * Nat.pow 2 (shift + 1))
    (below : n * Nat.pow 2 (shift + 1) < 2 * leadingBit) :
    nearest 53 (-1074) n 1 = (n * Nat.pow 2 (shift + 1), .negSucc shift) := by
  have positive : n ≠ 0 := by
    rintro rfl
    rw [Nat.zero_mul] at atLeast
    exact absurd atLeast (by decide)
  have log : n.log2 + (shift + 1) = 52 := by
    rw [← log2_mul_pow positive, ← Nat.pow_eq, log2_of_full atLeast below]
  have exponent : max (-1074) (floorLog2 n 1 - (53 - 1 : Nat)) = Int.negSucc shift := by
    rw [floorLog2_one positive]
    omega
  rw [nearest, exponent]
  have exact : roundDiv (n * Nat.pow 2 (shift + 1)) 1 = n * Nat.pow 2 (shift + 1) := by
    have whole := roundDiv_mul (n * Nat.pow 2 (shift + 1)) Nat.one_pos
    rwa [Nat.mul_one] at whole
  simp only [exact]

/-! ## Integers -/

theorem ofInt_of_sign (negative : Bool) {n : Nat} (positive : n ≠ 0) :
    ofInt (if negative then -(n : Int) else n) =
      encode negative (nearest 53 (-1074) n 1).1 (nearest 53 (-1074) n 1).2 := by
  have sign : decide ((if negative then -(n : Int) else n) < 0) = negative := by
    cases negative <;> simp <;> omega
  have size : (if negative then -(n : Int) else n).natAbs = n := by
    cases negative <;> simp
  rw [ofInt, sign, size, ofRatio, if_neg positive]

/-- Only a zero has an integral value without a full significand. -/
theorem isZero_of_subnormal {x : Binary64} (least : x.biasedExponent = 0)
    (whole : x.magnitude.1 % x.magnitude.2 = 0) : x.isZero = true ∧ x.magnitude.1 = 0 := by
  obtain ⟨shift, exponent, large⟩ : ∃ shift, x.exponent = Int.negSucc shift ∧ 52 ≤ shift + 1 := by
    refine ⟨1073, ?_, by decide⟩
    rw [exponent, least]
    rfl
  have magnitude : x.magnitude = (x.fraction, Nat.pow 2 (shift + 1)) := by
    rw [magnitude, significand, if_pos least, exponent]
    rfl
  have small : x.fraction < Nat.pow 2 (shift + 1) :=
    Nat.lt_of_lt_of_le x.fraction_lt (Nat.pow_le_pow_right Nat.zero_lt_two large)
  rw [magnitude] at whole ⊢
  have none : x.fraction = 0 := (Nat.mod_eq_of_lt small).symm.trans whole
  exact ⟨isZero_iff.2 ⟨least, none⟩, none⟩

/-- A number that equals an integer is what the integer is rounded to, unless it is zero. -/
theorem ofInt_of_toInt? {x : Binary64} {i : Int} (integral : x.toInt? = some i) :
    ofInt i = x ∨ x.isZero = true ∧ i = 0 := by
  rw [toInt?] at integral
  obtain ⟨finite, integral⟩ := Option.ite_none_right_eq_some.1 integral
  dsimp only at integral
  obtain ⟨whole, value⟩ := Option.ite_none_right_eq_some.1 integral
  obtain rfl := Option.some.inj value
  by_cases least : x.biasedExponent = 0
  · obtain ⟨isZero, none⟩ := isZero_of_subnormal least whole
    refine .inr ⟨isZero, ?_⟩
    rw [none, Nat.zero_div]
    cases x.isNegative <;> rfl
  · left
    have atLeast : leadingBit ≤ x.significand := by
      rw [significand, if_neg least]
      exact Nat.le_add_right _ _
    have below : x.significand < 2 * leadingBit := by
      have bounded := x.fraction_lt
      rw [significand, if_neg least]
      omega
    have full : nearest 53 (-1074) (x.magnitude.1 / x.magnitude.2) 1 =
        (x.significand, x.exponent) := by
      rw [magnitude] at whole ⊢
      cases power : x.exponent with
      | ofNat shift =>
        have ratio : scaled x.significand (.ofNat shift) =
            (x.significand * Nat.pow 2 shift, 1) := rfl
        rw [ratio, Nat.div_one]
        exact nearest_mul atLeast below shift
      | negSucc shift =>
        have ratio : scaled x.significand (.negSucc shift) =
            (x.significand, Nat.pow 2 (shift + 1)) := rfl
        rw [power, ratio] at whole
        rw [ratio]
        have exact : x.significand / Nat.pow 2 (shift + 1) * Nat.pow 2 (shift + 1) =
            x.significand := Nat.div_mul_cancel (Nat.dvd_of_mod_eq_zero whole)
        have found := @nearest_div (x.significand / Nat.pow 2 (shift + 1)) shift
        rw [exact] at found
        exact found atLeast below
    have positive : x.magnitude.1 / x.magnitude.2 ≠ 0 := by
      intro none
      rw [none] at full
      have lost : (0 : Nat) = x.significand := congrArg Prod.fst full
      rw [← lost] at atLeast
      exact absurd atLeast (by decide)
    rw [ofInt_of_sign x.isNegative positive, full, encode_fields finite least]

/-- A number that is exchanged as an integer is found again. -/
theorem ofInt64_of_toInt64? {x : Binary64} {i : Int64} (integral : x.toInt64? = some i) :
    ofInt64 i = x ∨ x.isZero = true ∧ i = 0 := by
  rw [toInt64?] at integral
  split at integral
  · next j whole =>
    obtain ⟨range, value⟩ := Option.ite_none_right_eq_some.1 integral
    obtain rfl := Option.some.inj value
    have same : (Int64.ofInt j).toInt = j :=
      Int64.toInt_ofInt_of_le range.1 (Int.lt_add_one_of_le range.2)
    rcases ofInt_of_toInt? whole with found | ⟨isZero, rfl⟩
    · exact .inl (by rw [ofInt64, same, found])
    · exact .inr ⟨isZero, rfl⟩
  · cases integral

theorem ofInt64_alike {x : Binary64} {i : Int64} (integral : x.toInt64? = some i) :
    (ofInt64 i).Alike x := by
  rcases ofInt64_of_toInt64? integral with found | ⟨isZero, rfl⟩
  · rw [found]
    exact .refl x
  · exact zero_alike isZero

/-- A single-precision number that is exchanged as an integer is found again. -/
theorem toSingle_ofInt64_alike {x : Binary64} {i : Int64} (single : x.toSingle = x)
    (integral : x.toInt64? = some i) : (ofInt64 i).toSingle.Alike x := by
  rcases ofInt64_of_toInt64? integral with found | ⟨isZero, rfl⟩
  · rw [found, single]
    exact .refl x
  · exact zero_alike isZero

/-! ## Comparison with integers -/

theorem magnitude_snd_pos (x : Binary64) : 0 < x.magnitude.2 := by
  rw [magnitude]
  cases x.exponent with
  | ofNat => exact Nat.one_pos
  | negSucc => exact Nat.pow_pos Nat.zero_lt_two

/-- The integer that a finite number equals is the one that it compares equal to. -/
theorem compareInt_eq_iff {x : Binary64} {i : Int} (finite : x.isFinite = true) :
    x.compareInt i = .eq ↔ x.toInt? = some i := by
  have positive := x.magnitude_snd_pos
  rw [compareInt, toInt?, if_pos finite]
  generalize x.magnitude = ratio at positive ⊢
  obtain ⟨num, den⟩ := ratio
  dsimp only at positive ⊢
  rw [Int.compare_eq_eq]
  by_cases whole : num % den = 0
  · obtain ⟨quotient, rfl⟩ := Nat.dvd_of_mod_eq_zero whole
    have nonzero : (den : Int) ≠ 0 := by omega
    rw [if_pos whole, Option.some.injEq, Nat.mul_div_cancel_left quotient positive,
      Int.natCast_mul]
    cases x.isNegative with
    | true =>
      simp only [if_true]
      rw [← Int.mul_neg, Int.mul_comm, Int.mul_eq_mul_right_iff nonzero]
    | false =>
      simp only [Bool.false_eq_true, if_false]
      rw [Int.mul_comm, Int.mul_eq_mul_right_iff nonzero]
  · rw [if_neg whole]
    refine iff_of_false (fun same => whole ?_) (by simp)
    have product : num = i.natAbs * den := by
      have sizes := congrArg Int.natAbs same
      rw [Int.natAbs_mul, Int.natAbs_natCast] at sizes
      rw [← sizes]
      cases x.isNegative <;> simp
    rw [product]
    exact Nat.mul_mod_left _ _

/-- A number compares equal to the word that it is exchanged as, and to no other one. -/
theorem compareInt?_eq_iff {x : Binary64} {i : Int64} :
    x.compareInt? i.toInt = some .eq ↔ x.toInt64? = some i := by
  by_cases last : x.biasedExponent = 2047
  · have infinite : x.isFinite = false := by simp [isFinite, last]
    have absent : x.toInt64? = none := by simp [toInt64?, toInt?, infinite]
    rw [absent, compareInt?]
    by_cases rest : x.fraction = 0
    · cases x.isNegative <;> simp [isNaN, isInfinite, last, rest]
    · simp [isNaN, last, rest]
  · have finite : x.isFinite = true := by simpa [isFinite] using last
    have exact : x.compareInt? i.toInt = some (x.compareInt i.toInt) := by
      simp [compareInt?, isNaN, isInfinite, last]
    rw [exact, Option.some.injEq, compareInt_eq_iff finite, toInt64?]
    cases integral : x.toInt? with
    | none => simp
    | some j =>
      dsimp only
      rw [Option.some.injEq, Option.ite_none_right_eq_some, Option.some.injEq]
      constructor
      · rintro rfl
        exact ⟨⟨i.minValue_le_toInt, i.toInt_le⟩, i.ofInt_toInt⟩
      · rintro ⟨range, rfl⟩
        exact (Int64.toInt_ofInt_of_le range.1 (Int.lt_add_one_of_le range.2)).symm

end Binary64

end ScriptHost
