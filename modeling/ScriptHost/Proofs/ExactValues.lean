import Mathlib.Algebra.Order.Field.Power
import Mathlib.Algebra.Order.Field.Rat
import Mathlib.Data.Rat.Cast.Lemmas
import Mathlib.Tactic.FieldSimp
import Mathlib.Tactic.NormNum
import Mathlib.Tactic.Ring
import ScriptHost.Proofs.TypedValues

/-!
# Exact values

A number has an exact value, which its bits are read as: a sign, an exponent and a fraction.  It is
exchanged as an integer exactly if that value is an integer of the signed sixty-four bit range, and
then as that integer, so that a script's number and a script's integer of one value are the same to
the host.
-/

namespace ScriptHost

namespace Binary64

/-- What sixty-four bits stand for: an exact value, an infinity, or no number at all. -/
inductive Reading where
  | finite (value : ℚ)
  | infinite (negative : Bool)
  | undefined

def sign (x : Binary64) : ℚ := if x.isNegative then -1 else 1

/--
The bits read as a sign, eleven bits of exponent and fifty-two bits of fraction.  The leading bit of
the significand is not written; it is missing where the exponent is least.
-/
def reading (x : Binary64) : Reading :=
  if x.biasedExponent = 2047 then
    if x.fraction = 0 then .infinite x.isNegative else .undefined
  else if x.biasedExponent = 0 then
    .finite (x.sign * (x.fraction / 2 ^ 52) * 2 ^ (-1022 : ℤ))
  else .finite (x.sign * (1 + x.fraction / 2 ^ 52) * 2 ^ ((x.biasedExponent : ℤ) - 1023))

/-! ## Significand and exponent -/

theorem scaled_value (mantissa : Nat) (power : ℤ) :
    ((scaled mantissa power).1 : ℚ) / (scaled mantissa power).2 = mantissa * 2 ^ power := by
  cases power with
  | ofNat n => simp [scaled]
  | negSucc n => simp [scaled, zpow_negSucc, div_eq_mul_inv]

/-- The value of a finite number up to its sign. -/
theorem magnitude_value (x : Binary64) :
    (x.magnitude.1 : ℚ) / x.magnitude.2 = x.significand * 2 ^ x.exponent :=
  scaled_value x.significand x.exponent

theorem reading_of_isFinite {x : Binary64} (finite : x.isFinite = true) :
    x.reading = .finite (x.sign * (x.significand * 2 ^ x.exponent)) := by
  have ordinary : x.biasedExponent ≠ 2047 := by simpa [isFinite] using finite
  have shifted (power : ℤ) : (2 : ℚ) ^ (power - (52 : ℕ)) = 2 ^ power / 2 ^ 52 := by
    rw [zpow_sub₀ two_ne_zero, zpow_natCast]
  rw [reading, if_neg ordinary]
  by_cases least : x.biasedExponent = 0
  · have exponent : x.exponent = -1022 - (52 : ℕ) := by
      rw [exponent, least]
      rfl
    rw [if_pos least, significand, if_pos least, exponent, shifted]
    congr 1
    ring
  · have exponent : x.exponent = (x.biasedExponent - 1023 : ℤ) - (52 : ℕ) := by
      rw [exponent]
      omega
    have leading : (leadingBit : ℚ) = 2 ^ 52 := by norm_num [leadingBit]
    rw [if_neg least, significand, if_neg least, exponent, shifted, Nat.cast_add, leading]
    congr 1
    ring

theorem reading_of_not_isFinite {x : Binary64} (notFinite : x.isFinite = false) (value : ℚ) :
    x.reading ≠ .finite value := by
  have last : x.biasedExponent = 2047 := by simpa [isFinite] using notFinite
  rw [reading, if_pos last]
  intro same
  split at same
  · cases same
  · cases same

/-- The integer that a number is taken for is its exact value. -/
theorem toInt?_eq_some_iff {x : Binary64} {i : ℤ} :
    x.toInt? = some i ↔ x.reading = .finite i := by
  cases finite : x.isFinite with
  | false =>
    refine iff_of_false (fun found => ?_) (reading_of_not_isFinite finite i)
    rw [toInt?, finite] at found
    cases found
  | true =>
    have positive : (x.magnitude.2 : ℚ) ≠ 0 := Nat.cast_ne_zero.2 (Nat.ne_of_gt x.magnitude_snd_pos)
    rw [← compareInt_eq_iff finite, compareInt, Int.compare_eq_eq, reading_of_isFinite finite,
      Reading.finite.injEq, ← magnitude_value, mul_div_assoc', div_eq_iff positive, sign]
    cases x.isNegative with
    | true =>
      simp only [if_true, neg_one_mul]
      exact_mod_cast Iff.rfl
    | false =>
      simp only [Bool.false_eq_true, if_false, one_mul]
      exact_mod_cast Iff.rfl

theorem toInt64?_eq_some_iff {x : Binary64} {i : Int64} :
    x.toInt64? = some i ↔ x.reading = .finite i.toInt := by
  rw [← toInt?_eq_some_iff, toInt64?]
  cases x.toInt? with
  | none => simp
  | some j =>
    dsimp only
    rw [Option.some.injEq, Option.ite_none_right_eq_some, Option.some.injEq]
    constructor
    · rintro ⟨range, rfl⟩
      exact (Int64.toInt_ofInt_of_le range.1 (Int.lt_add_one_of_le range.2)).symm
    · rintro rfl
      exact ⟨⟨i.minValue_le_toInt, i.toInt_le⟩, i.ofInt_toInt⟩

/-- Both zeros have the value zero. -/
theorem reading_of_isZero {x : Binary64} (isZero : x.isZero = true) : x.reading = .finite 0 := by
  obtain ⟨finite, none⟩ := Bool.and_eq_true_iff.1 isZero
  rw [reading_of_isFinite finite, beq_iff_eq.1 none]
  simp

/-- What a number is taken for has the same value when it is a number again. -/
theorem reading_ofInt64 {x : Binary64} {i : Int64} (integral : x.toInt64? = some i) :
    (ofInt64 i).reading = x.reading := by
  rcases ofInt64_of_toInt64? integral with same | ⟨isZero, rfl⟩
  · rw [same]
  · rw [reading_of_isZero isZero]
    exact reading_of_isZero (x := zero) rfl

end Binary64

/-! ## Exchange -/

namespace Crossing

open Binary64 MachineM

theorem ofBinary64_eq_int_iff {x : Binary64} {i : Int64} :
    Value.ofBinary64 x = .int i ↔ x.reading = .finite i.toInt := by
  rw [← toInt64?_eq_some_iff, Value.ofBinary64]
  cases x.toInt64? <;> simp

theorem ofBinary64_eq_float_iff {x : Binary64} :
    Value.ofBinary64 x = .float x ↔
      ∀ z : ℤ, -2 ^ 63 ≤ z → z ≤ 2 ^ 63 - 1 → x.reading ≠ .finite z := by
  have absent : Value.ofBinary64 x = .float x ↔ ∀ i : Int64, x.toInt64? ≠ some i := by
    rw [Value.ofBinary64]
    cases x.toInt64? <;> simp
  rw [absent]
  constructor
  · intro apart z low high same
    have back : (Int64.ofInt z).toInt = z :=
      Int64.toInt_ofInt_of_le low (Int.lt_of_le_sub_one high)
    exact apart (.ofInt z) (toInt64?_eq_some_iff.2 (by rw [back, same]))
  · intro apart i found
    exact apart i.toInt i.minValue_le_toInt (Int.le_sub_one_of_lt i.toInt_lt)
      (toInt64?_eq_some_iff.1 found)

/-- A script's number is to the host what it is exchanged as. -/
theorem toHost_float (x : Binary64) :
    toHost (.float x) = match x.toInt64? with
      | some i => pure (.int i)
      | none => pure (.float x) := rfl

/-- A number that was handed to the scripts and taken back is read as one of the same value. -/
theorem runOn_carry_float (x : Binary64) (s : Machine) :
    ∃ y : Binary64, y.reading = x.reading ∧
      (carry .float (.float x)).runOn s = (.ok (.float y), s) := by
  have read : (readObjects (Datum.float x).read : CrossingM HostValue).runOn s =
      (.ok (.float x), s) := rfl
  have handed : (toScript (.float x)).runOn s = (.ok (.ofBinary64 x), s) := rfl
  rw [carry, runOn_bind_ok read, runOn_bind_ok handed, Value.ofBinary64]
  cases integral : x.toInt64? with
  | some i => exact ⟨ofInt64 i, reading_ofInt64 integral, rfl⟩
  | none =>
    have taken : (toHost (.float x)).runOn s = (.ok (.float x), s) := by
      rw [toHost_float, integral]
      rfl
    exact ⟨x, rfl, runOn_bind_ok taken _⟩

/--
A number is exchanged as an integer exactly if its value is one of the signed sixty-four bit range,
and then as that integer; otherwise it is exchanged as it is.  So a number is found again as one of
the same value, and the host cannot tell a script's number from a script's integer of that value.
-/
theorem number_exchanged_exactly (x : Binary64) :
    (∀ i : Int64, Value.ofBinary64 x = .int i ↔ x.reading = .finite i.toInt) ∧
      (Value.ofBinary64 x = .float x ↔
        ∀ z : ℤ, -2 ^ 63 ≤ z → z ≤ 2 ^ 63 - 1 → x.reading ≠ .finite z) ∧
      (∀ s, ∃ y : Binary64, y.reading = x.reading ∧
        (carry .float (.float x)).runOn s = (.ok (.float y), s)) ∧
      ∀ i : Int64, x.reading = .finite i.toInt → ∀ s,
        (toHost (.float x)).runOn s = (.ok (.int i), s) ∧
          (toHost (.int i)).runOn s = (.ok (.int i), s) := by
  refine ⟨fun i => ofBinary64_eq_int_iff, ofBinary64_eq_float_iff, runOn_carry_float x,
    fun i same s => ⟨?_, rfl⟩⟩
  rw [toHost_float, toInt64?_eq_some_iff.2 same]
  rfl

/-- The least integer of the range is exchanged as one, the number after the greatest is not. -/
theorem number_exchanged_exactly_edges :
    Value.ofBinary64 ⟨0xc3e0000000000000⟩ = .int .minValue ∧
      Value.ofBinary64 ⟨0x43e0000000000000⟩ = .float ⟨0x43e0000000000000⟩ ∧
      ∀ s, (toHost (.float ⟨0x8000000000000000⟩)).runOn s = (.ok (.int 0), s) := by
  have least : (⟨0xc3e0000000000000⟩ : Binary64).reading =
      .finite (Int64.minValue.toInt : ℤ) := toInt64?_eq_some_iff.1 (by decide)
  have beyond : (⟨0x43e0000000000000⟩ : Binary64).reading = .finite (2 ^ 63 : ℤ) :=
    toInt?_eq_some_iff.1 (by decide)
  have zero : (⟨0x8000000000000000⟩ : Binary64).reading = .finite ((0 : Int64).toInt : ℤ) := by
    rw [reading_of_isZero (by decide)]
    rfl
  refine ⟨((number_exchanged_exactly _).1 _).2 least,
    (number_exchanged_exactly _).2.1.2 fun z _ high same => ?_,
    fun s => ((number_exchanged_exactly _).2.2.2 0 zero s).1⟩
  rw [beyond, Reading.finite.injEq, Int.cast_inj] at same
  omega

end Crossing

end ScriptHost
