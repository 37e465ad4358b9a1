import ScriptHost.Proofs.ExactValues

/-!
# Single precision

A value that a format has is rounded to itself.  A significand and an exponent are canonical if the
significand fills the precision or the exponent is least; a value has one canonical form, and a
ratio that has one is rounded to it.  So a number of single precision is found again after it was
widened.
-/

namespace ScriptHost

namespace Binary64

/-- The numbers of single precision among those of double precision. -/
def IsSingle (x : Binary64) : Prop :=
  x.isFinite = true → ∃ (mantissa : ℕ) (power : ℤ),
    mantissa < 2 ^ 24 ∧ -149 ≤ power ∧ power ≤ 104 ∧
      x.reading = .finite (x.sign * (mantissa * 2 ^ power))

/-- The significand and exponent of a value in a format. -/
structure Canonical (precision : ℕ) (least : ℤ) (mantissa : ℕ) (power : ℤ) : Prop where
  below : mantissa < 2 ^ precision
  least_le : least ≤ power
  full : 2 ^ (precision - 1) ≤ mantissa ∨ power = least

/-! ## The exponent of a ratio -/

section

variable {num den : ℕ}

theorem pow_log2_le (positive : num ≠ 0) : (2 : ℚ) ^ (num.log2 : ℤ) ≤ num := by
  rw [zpow_natCast]
  exact_mod_cast Nat.log2_self_le positive

theorem lt_pow_log2 (num : ℕ) : (num : ℚ) < 2 ^ ((num.log2 : ℤ) + 1) := by
  have bound : num < 2 ^ (num.log2 + 1) := Nat.lt_log2_self
  exact_mod_cast bound

/-- The ratio is compared with a power of two by naturals. -/
theorem floorLog2_eq (positive : 0 < den) :
    floorLog2 num den =
      if (2 : ℚ) ^ ((num.log2 : ℤ) - den.log2) ≤ num / den then (num.log2 : ℤ) - den.log2
      else (num.log2 : ℤ) - den.log2 - 1 := by
  have positive : (0 : ℚ) < den := Nat.cast_pos.2 positive
  simp only [floorLog2, le_div_iff₀ positive]
  generalize (num.log2 : ℤ) - den.log2 = guess
  cases guess with
  | ofNat n =>
    have reached : (2 : ℚ) ^ Int.ofNat n * den ≤ num ↔ den * Nat.pow 2 n ≤ num := by
      rw [Int.ofNat_eq_natCast, zpow_natCast, mul_comm]
      exact_mod_cast Iff.rfl
    simp only [reached, decide_eq_true_eq]
  | negSucc n =>
    have reached : (2 : ℚ) ^ Int.negSucc n * den ≤ num ↔ den ≤ num * Nat.pow 2 (n + 1) := by
      rw [zpow_negSucc, inv_mul_le_iff₀ (pow_pos zero_lt_two _), mul_comm]
      exact_mod_cast Iff.rfl
    simp only [reached, decide_eq_true_eq]

/-- The ratio lies between this power of two and the next one. -/
theorem floorLog2_spec (numPositive : num ≠ 0) (denPositive : den ≠ 0) :
    (2 : ℚ) ^ floorLog2 num den ≤ num / den ∧
      (num : ℚ) / den < 2 ^ (floorLog2 num den + 1) := by
  have natPositive : 0 < den := Nat.pos_of_ne_zero denPositive
  have positive : (0 : ℚ) < den := Nat.cast_pos.2 natPositive
  have above : (num : ℚ) / den < 2 ^ ((num.log2 : ℤ) - den.log2 + 1) := by
    rw [div_lt_iff₀ positive]
    calc (num : ℚ) < 2 ^ ((num.log2 : ℤ) + 1) := lt_pow_log2 num
      _ = 2 ^ ((num.log2 : ℤ) - den.log2 + 1) * 2 ^ (den.log2 : ℤ) := by
        rw [← zpow_add₀ two_ne_zero]
        congr 1
        ring
      _ ≤ 2 ^ ((num.log2 : ℤ) - den.log2 + 1) * den :=
        mul_le_mul_of_nonneg_left (pow_log2_le denPositive) (zpow_nonneg zero_le_two _)
  have atLeast : (2 : ℚ) ^ ((num.log2 : ℤ) - den.log2 - 1) ≤ num / den := by
    rw [le_div_iff₀ positive]
    calc (2 : ℚ) ^ ((num.log2 : ℤ) - den.log2 - 1) * den
        ≤ 2 ^ ((num.log2 : ℤ) - den.log2 - 1) * 2 ^ ((den.log2 : ℤ) + 1) :=
        mul_le_mul_of_nonneg_left (lt_pow_log2 den).le (zpow_nonneg zero_le_two _)
      _ = 2 ^ (num.log2 : ℤ) := by
        rw [← zpow_add₀ two_ne_zero]
        congr 1
        ring
      _ ≤ num := pow_log2_le numPositive
  rw [floorLog2_eq natPositive]
  split
  · next reached => exact ⟨reached, above⟩
  · next missed =>
    rw [sub_add_cancel]
    exact ⟨atLeast, not_le.1 missed⟩

end

/-! ## Rounding what a format has -/

section

variable {precision mantissa other : ℕ} {least power place : ℤ} {num den : ℕ}

/-- A value at a greater exponent is a whole number of units of a lesser one. -/
theorem value_shift (mantissa : ℕ) (below : place ≤ power) :
    (mantissa : ℚ) * 2 ^ power = (mantissa * 2 ^ (power - place).toNat : ℕ) * 2 ^ place := by
  have difference : power = ((power - place).toNat : ℤ) + place := by omega
  conv_lhs => rw [difference, zpow_add₀ two_ne_zero, zpow_natCast, ← mul_assoc]
  rw [Nat.cast_mul, Nat.cast_pow, Nat.cast_ofNat]

theorem value_ne_zero (power : ℤ) (nonzero : mantissa ≠ 0) : (mantissa : ℚ) * 2 ^ power ≠ 0 :=
  mul_ne_zero (Nat.cast_ne_zero.2 nonzero) (zpow_ne_zero power two_ne_zero)

theorem num_ne_zero_of_value (nonzero : mantissa ≠ 0)
    (value : (num : ℚ) / den = mantissa * 2 ^ power) : num ≠ 0 := by
  rintro rfl
  rw [Nat.cast_zero, zero_div] at value
  exact value_ne_zero power nonzero value.symm

theorem value_injective (same : (mantissa : ℚ) * 2 ^ power = other * 2 ^ power) :
    mantissa = other :=
  Nat.cast_injective (mul_right_cancel₀ (zpow_ne_zero power two_ne_zero) same)

/-- Of two canonical forms of one value, the exponent of neither is less. -/
theorem Canonical.le_of_value (canonical : Canonical precision least mantissa power)
    (further : Canonical precision least other place) (positive : 0 < precision)
    (same : (mantissa : ℚ) * 2 ^ power = other * 2 ^ place) : place ≤ power := by
  refine not_lt.1 fun less => ?_
  rw [value_shift other less.le] at same
  have product := value_injective same
  have full : 2 ^ (precision - 1) ≤ other :=
    further.full.resolve_right (canonical.least_le.trans_lt less).ne'
  have shift : 2 ^ 1 ≤ 2 ^ (place - power).toNat :=
    Nat.pow_le_pow_right Nat.zero_lt_two (by omega)
  have reached : 2 ^ precision ≤ mantissa := by
    calc 2 ^ precision = 2 ^ (precision - 1) * 2 ^ 1 := by
          rw [← Nat.pow_add, Nat.sub_add_cancel positive]
      _ ≤ other * 2 ^ (place - power).toNat := Nat.mul_le_mul full shift
      _ = mantissa := product.symm
  exact absurd canonical.below (not_lt.2 reached)

/-- A value has one canonical form. -/
theorem Canonical.unique (canonical : Canonical precision least mantissa power)
    (further : Canonical precision least other place) (positive : 0 < precision)
    (same : (mantissa : ℚ) * 2 ^ power = other * 2 ^ place) :
    mantissa = other ∧ power = place := by
  have exponents : power = place :=
    le_antisymm (further.le_of_value canonical positive same.symm)
      (canonical.le_of_value further positive same)
  subst exponents
  exact ⟨value_injective same, rfl⟩

/-- A ratio is rounded at an exponent where it is a whole number of units to that number. -/
theorem roundDiv_at (denPositive : den ≠ 0) :
    (num : ℚ) / den = mantissa * 2 ^ power →
      (match power with
        | .ofNat n => roundDiv num (den * Nat.pow 2 n)
        | .negSucc n => roundDiv (num * Nat.pow 2 (n + 1)) den) = mantissa := by
  intro value
  have nonzero : (den : ℚ) ≠ 0 := Nat.cast_ne_zero.2 denPositive
  have natPositive : 0 < den := Nat.pos_of_ne_zero denPositive
  cases power with
  | ofNat n =>
    have product : num = mantissa * (den * Nat.pow 2 n) := by
      rw [Int.ofNat_eq_natCast, zpow_natCast, div_eq_iff nonzero] at value
      have product : num = mantissa * 2 ^ n * den := by exact_mod_cast value
      rw [product, Nat.pow_eq]
      ring
    dsimp only
    rw [product]
    exact roundDiv_mul mantissa (Nat.mul_pos natPositive (Nat.pow_pos Nat.zero_lt_two))
  | negSucc n =>
    have product : num * Nat.pow 2 (n + 1) = mantissa * den := by
      rw [zpow_negSucc, div_eq_iff nonzero, mul_right_comm,
        eq_mul_inv_iff_mul_eq₀ (pow_ne_zero _ two_ne_zero)] at value
      exact_mod_cast value
    dsimp only
    rw [product]
    exact roundDiv_mul mantissa natPositive

/-- A significand is bounded by the values it can have. -/
theorem significand_lt_iff (power : ℤ) {bound : ℕ} :
    (mantissa : ℚ) * 2 ^ power < 2 ^ ((bound : ℤ) + power) ↔ mantissa < 2 ^ bound := by
  rw [zpow_add₀ two_ne_zero, mul_lt_mul_iff_left₀ (zpow_pos zero_lt_two _), zpow_natCast]
  exact_mod_cast Iff.rfl

theorem le_significand_iff (power : ℤ) {bound : ℕ} :
    (2 : ℚ) ^ ((bound : ℤ) + power) ≤ mantissa * 2 ^ power ↔ 2 ^ bound ≤ mantissa := by
  rw [← not_lt, significand_lt_iff, not_lt]

/-- A ratio that a format has is rounded to its canonical form there. -/
theorem nearest_of_value (positive : 0 < precision) (nonzero : mantissa ≠ 0)
    (below : mantissa < 2 ^ precision) (least_le : least ≤ power)
    (denPositive : den ≠ 0) (value : (num : ℚ) / den = mantissa * 2 ^ power) :
    ∃ other place, nearest precision least num den = (other, place) ∧
      Canonical precision least other place ∧ (other : ℚ) * 2 ^ place = num / den := by
  obtain ⟨reached, next⟩ := floorLog2_spec (num_ne_zero_of_value nonzero value) denPositive
  generalize chosen : max least (floorLog2 num den - (precision - 1 : ℕ)) = place
  have fits : place ≤ power := by
    have less : (2 : ℚ) ^ floorLog2 num den < 2 ^ ((precision : ℤ) + power) := by
      rw [value] at reached
      exact reached.trans_lt ((significand_lt_iff power).2 below)
    have less := (zpow_lt_zpow_iff_right₀ one_lt_two).1 less
    omega
  have shifted := value_shift mantissa fits
  refine ⟨mantissa * 2 ^ (power - place).toNat, place, ?_, ⟨?_, by omega, ?_⟩, ?_⟩
  · rw [nearest, chosen]
    exact congrArg (·, place) (roundDiv_at denPositive (value.trans shifted))
  · rw [← significand_lt_iff place, ← shifted, ← value]
    exact next.trans_le (zpow_le_zpow_right₀ one_le_two (by omega))
  · by_cases same : place = least
    · exact .inr same
    · left
      have exponent : ((precision - 1 : ℕ) : ℤ) + place = floorLog2 num den := by omega
      rw [← le_significand_iff place, ← shifted, ← value, exponent]
      exact reached
  · rw [← shifted, value]

end

/-! ## Numbers that are found again -/

variable {x : Binary64}

theorem canonical_fields (x : Binary64) : Canonical 53 (-1074) x.significand x.exponent := by
  have fraction := x.fraction_lt
  have leading : leadingBit = 2 ^ 52 := rfl
  by_cases least : x.biasedExponent = 0
  · have exponent : x.exponent = -1074 := by
      rw [exponent, least]
      rfl
    refine ⟨?_, exponent.ge, .inr exponent⟩
    rw [significand, if_pos least]
    omega
  · refine ⟨?_, ?_, .inl ?_⟩
    · rw [significand, if_neg least]
      omega
    · rw [exponent]
      omega
    · rw [significand, if_neg least, leading]
      exact Nat.le_add_right _ _

/-- A finite number is put together again from its sign, significand and exponent. -/
theorem encode_of_isFinite (finite : x.isFinite = true) :
    encode x.isNegative x.significand x.exponent = x := by
  by_cases least : x.biasedExponent = 0
  · have fraction := x.fraction_lt
    have bits := x.withSign_fields
    rw [least, Nat.zero_mul, Nat.zero_add] at bits
    have apart : x.fraction ≠ 2 * leadingBit := by omega
    rw [significand, if_pos least, encode, if_neg apart]
    dsimp only
    rw [if_pos fraction, bits]
  · exact encode_fields finite least

theorem significand_ne_zero (finite : x.isFinite = true) (notZero : x.isZero = false) :
    x.significand ≠ 0 := by
  simpa [isZero, finite] using notZero

/-- A number is what every ratio of its value is rounded to. -/
theorem ofRatio_of_value {num den : ℕ} (finite : x.isFinite = true) (notZero : x.isZero = false)
    (denPositive : den ≠ 0) (value : (num : ℚ) / den = x.significand * 2 ^ x.exponent) :
    ofRatio x.isNegative num den = x := by
  have nonzero := significand_ne_zero finite notZero
  obtain ⟨other, place, found, canonical, same⟩ := nearest_of_value (by decide) nonzero
    x.canonical_fields.below x.canonical_fields.least_le denPositive value
  obtain ⟨rfl, rfl⟩ := x.canonical_fields.unique canonical (by decide) (value.symm.trans same.symm)
  rw [ofRatio, if_neg (num_ne_zero_of_value nonzero value), found]
  exact encode_of_isFinite finite

theorem sign_ne_zero (x : Binary64) : x.sign ≠ 0 := by
  rw [sign]
  split <;> norm_num

theorem scaled_snd_ne_zero (mantissa : ℕ) (power : ℤ) : (scaled mantissa power).2 ≠ 0 := by
  cases power with
  | ofNat n => exact Nat.one_ne_zero
  | negSucc n => exact (Nat.pow_pos Nat.zero_lt_two).ne'

/-- A number of single precision is found again after it was widened. -/
theorem IsSingle.toSingle_eq (single : x.IsSingle) : x.toSingle = x := by
  by_cases ordinary : x.isFinite = true ∧ x.isZero = false
  · obtain ⟨finite, notZero⟩ := ordinary
    obtain ⟨mantissa, power, below, least, greatest, reading⟩ := single finite
    rw [reading_of_isFinite finite, Reading.finite.injEq, mul_right_inj' x.sign_ne_zero] at reading
    have nonzero : mantissa ≠ 0 := by
      rintro rfl
      rw [Nat.cast_zero, zero_mul] at reading
      exact value_ne_zero _ (significand_ne_zero finite notZero) reading
    obtain ⟨other, place, found, canonical, same⟩ := nearest_of_value (by decide) nonzero below
      least x.magnitude_snd_pos.ne' (x.magnitude_value.trans reading)
    have value := scaled_value other place
    rw [same] at value
    have within : ¬ Nat.pow 2 128 * (scaled other place).2 ≤ (scaled other place).1 := by
      have bounded : (2 : ℚ) ^ ((24 : ℤ) + power) ≤ (Nat.pow 2 128 : ℕ) := by
        calc (2 : ℚ) ^ ((24 : ℤ) + power) ≤ 2 ^ (128 : ℤ) :=
              zpow_le_zpow_right₀ one_le_two (by omega)
          _ = (Nat.pow 2 128 : ℕ) := by norm_num
      have positive : (0 : ℚ) < (scaled other place).2 :=
        Nat.cast_pos.2 (Nat.pos_of_ne_zero (scaled_snd_ne_zero other place))
      have less := (significand_lt_iff power).2 below
      rw [← reading, ← magnitude_value, ← value] at less
      have less := (div_lt_iff₀ positive).1 (less.trans_le bounded)
      exact not_le.2 (by exact_mod_cast less)
    have exact := ofRatio_of_value finite notZero (scaled_snd_ne_zero other place)
      (value.trans x.magnitude_value)
    rw [toSingle, if_neg (by simp [finite, notZero])]
    simp only [found]
    rw [if_neg within, exact]
  · have special : (!x.isFinite || x.isZero) = true := by
      cases finite : x.isFinite <;> simp_all
    rw [toSingle, if_pos special]

/-- One half has single precision. -/
example : (⟨0x3fe0000000000000⟩ : Binary64).IsSingle := by
  refine fun finite => ⟨1, -1, by norm_num, by norm_num, by norm_num, ?_⟩
  have exponent : (⟨0x3fe0000000000000⟩ : Binary64).exponent = -53 := by decide
  have significand : (⟨0x3fe0000000000000⟩ : Binary64).significand = 2 ^ 52 := by decide
  rw [reading_of_isFinite finite, exponent, significand]
  congr 2
  norm_num

end Binary64

end ScriptHost
