/-!
# Double-precision numbers

A number is its sixty-four bits.  Its exact value is read off as a sign, a natural significand and
a power of two, and a ratio of naturals is rounded to the nearest number, ties to the even one.
Sums, products and quotients are those of the processor; everything that decides a text, a
conversion or a comparison is exact arithmetic on naturals and integers.
-/

namespace ScriptHost

/-- A double-precision number, given by its sixty-four bits. -/
structure Binary64 where
  bits : UInt64
deriving DecidableEq, Inhabited, Hashable, Repr

/-- The quotient rounded to the nearest natural, a half going to the even one. -/
def roundDiv (num den : Nat) : Nat :=
  let quotient := num / den
  let rest := num % den
  if 2 * rest < den then quotient
  else if 2 * rest = den then quotient + quotient % 2
  else quotient + 1

namespace Binary64

def zero : Binary64 := ⟨0⟩
def infinity : Binary64 := ⟨0x7ff0000000000000⟩
def quietNaN : Binary64 := ⟨0x7ff8000000000000⟩

/-- The result of an invalid operation carries the sign bit. -/
def invalid : Binary64 := ⟨0xfff8000000000000⟩

/-- The place of the sign, `2 ^ 63`. -/
def signBit : Nat := 0x8000000000000000

/-- The leading bit of a normal significand, `2 ^ 52`; the exponent stands above it. -/
def leadingBit : Nat := 0x10000000000000

def isNegative (x : Binary64) : Bool := x.bits.toNat / signBit == 1

def biasedExponent (x : Binary64) : Nat := x.bits.toNat / leadingBit % 2048

def fraction (x : Binary64) : Nat := x.bits.toNat % leadingBit

def isNaN (x : Binary64) : Bool := x.biasedExponent == 2047 && x.fraction != 0

def isInfinite (x : Binary64) : Bool := x.biasedExponent == 2047 && x.fraction == 0

def isFinite (x : Binary64) : Bool := x.biasedExponent != 2047

/-- The natural significand: a finite number is `significand * 2 ^ exponent` up to its sign. -/
def significand (x : Binary64) : Nat :=
  if x.biasedExponent = 0 then x.fraction else leadingBit + x.fraction

def exponent (x : Binary64) : Int := (max x.biasedExponent 1 : Nat) - 1075

def isZero (x : Binary64) : Bool := x.isFinite && x.significand == 0

/-- `mantissa * 2 ^ power` as a numerator and a positive denominator. -/
def scaled (mantissa : Nat) (power : Int) : Nat × Nat :=
  match power with
  | .ofNat n => (mantissa * Nat.pow 2 n, 1)
  | .negSucc n => (mantissa, Nat.pow 2 (n + 1))

/-- The magnitude of a finite number as a ratio. -/
def magnitude (x : Binary64) : Nat × Nat := scaled x.significand x.exponent

def withSign (negative : Bool) (bits : Nat) : Binary64 :=
  ⟨UInt64.ofNat (if negative then signBit + bits else bits)⟩

/--
The number with the given sign, significand and exponent, for a significand of at most `2 ^ 53`
that reaches `2 ^ 52` unless the exponent is the least one.
-/
def encode (negative : Bool) (mantissa : Nat) (power : Int) : Binary64 :=
  let (mantissa, power) :=
    if mantissa = 2 * leadingBit then (leadingBit, power + 1) else (mantissa, power)
  if mantissa < leadingBit then withSign negative mantissa
  else
    let biased := (power + 1075).toNat
    if biased < 2047 then withSign negative (biased * leadingBit + (mantissa - leadingBit))
    else withSign negative (2047 * leadingBit)

/-- The largest power of two that is at most `num / den`, for positive arguments. -/
def floorLog2 (num den : Nat) : Int :=
  let guess : Int := (num.log2 : Int) - den.log2
  let reached : Bool := match guess with
    | .ofNat n => den * Nat.pow 2 n ≤ num
    | .negSucc n => den ≤ num * Nat.pow 2 (n + 1)
  if reached then guess else guess - 1

/--
The significand and exponent nearest to `num / den` with at most `precision` bits and an exponent
of at least `least`.
-/
def nearest (precision : Nat) (least : Int) (num den : Nat) : Nat × Int :=
  let power := max least (floorLog2 num den - (precision - 1 : Nat))
  let mantissa := match power with
    | .ofNat n => roundDiv num (den * Nat.pow 2 n)
    | .negSucc n => roundDiv (num * Nat.pow 2 (n + 1)) den
  (mantissa, power)

/-- The number nearest to `num / den`. -/
def ofRatio (negative : Bool) (num den : Nat) : Binary64 :=
  if num = 0 then withSign negative 0
  else
    let (mantissa, power) := nearest 53 (-1074) num den
    encode negative mantissa power

def ofNat (n : Nat) : Binary64 := ofRatio false n 1

def ofInt (i : Int) : Binary64 := ofRatio (i < 0) i.natAbs 1

def ofInt64 (i : Int64) : Binary64 := ofInt i.toInt

/-- The single-precision number nearest to a number, widened again. -/
def toSingle (x : Binary64) : Binary64 :=
  if !x.isFinite || x.isZero then x
  else
    let (num, den) := x.magnitude
    let (mantissa, power) := nearest 24 (-149) num den
    let (num, den) := scaled mantissa power
    if Nat.pow 2 128 * den ≤ num then withSign x.isNegative (2047 * leadingBit)
    else ofRatio x.isNegative num den

/-- The integer that a finite number equals, if it equals one. -/
def toInt? (x : Binary64) : Option Int :=
  if x.isFinite then
    let (num, den) := x.magnitude
    if num % den = 0 then
      some (if x.isNegative then -((num / den : Nat) : Int) else (num / den : Nat))
    else none
  else none

/-- The word that a number equals, if it is an integer of the signed sixty-four bit range. -/
def toInt64? (x : Binary64) : Option Int64 :=
  match x.toInt? with
  | some i =>
    if Int64.minValue.toInt ≤ i ∧ i ≤ Int64.maxValue.toInt then some (Int64.ofInt i) else none
  | none => none

/-- The greatest integral number that is not above a number. -/
def floor (x : Binary64) : Binary64 :=
  if !x.isFinite || x.isZero then x
  else
    let (num, den) := x.magnitude
    let whole := if x.isNegative then (num + den - 1) / den else num / den
    ofRatio x.isNegative whole 1

/-- Numbers other than NaN are ordered as their keys; both zeros have key zero. -/
def orderKey (x : Binary64) : Int :=
  let rest : Int := (x.bits.toNat % signBit : Nat)
  if x.isNegative then -rest else rest

/-- Numeric equality: zeros are equal, and NaN equals nothing. -/
def equals (x y : Binary64) : Bool := !x.isNaN && !y.isNaN && x.orderKey == y.orderKey

def less (x y : Binary64) : Bool := !x.isNaN && !y.isNaN && x.orderKey < y.orderKey

def atMost (x y : Binary64) : Bool := !x.isNaN && !y.isNaN && x.orderKey ≤ y.orderKey

/-- How a finite number compares with an integer, exactly. -/
def compareInt (x : Binary64) (i : Int) : Ordering :=
  let (num, den) := x.magnitude
  let signed : Int := if x.isNegative then -(num : Int) else num
  compare signed (i * den)

/-- Exact comparison of a number with an integer; NaN is not comparable. -/
def compareInt? (x : Binary64) (i : Int) : Option Ordering :=
  if x.isNaN then none
  else if x.isInfinite then some (if x.isNegative then .lt else .gt)
  else some (x.compareInt i)

def neg (x : Binary64) : Binary64 := ⟨x.bits ^^^ 0x8000000000000000⟩

/-- An operation of the processor; NaN operands pass through. -/
def lift (operation : Float → Float → Float) (x y : Binary64) : Binary64 :=
  if x.isNaN then x
  else if y.isNaN then y
  else
    let result := operation (Float.ofBits x.bits) (Float.ofBits y.bits)
    if result.isNaN then invalid else ⟨result.toBits⟩

def add (x y : Binary64) : Binary64 := lift (· + ·) x y
def sub (x y : Binary64) : Binary64 := lift (· - ·) x y
def mul (x y : Binary64) : Binary64 := lift (· * ·) x y
def div (x y : Binary64) : Binary64 := lift (· / ·) x y
def pow (x y : Binary64) : Binary64 :=
  if y = ⟨0x4000000000000000⟩ then x.mul x
  else
    let result := Float.pow (Float.ofBits x.bits) (Float.ofBits y.bits)
    if result.isNaN then
      if x.isNaN then x else if y.isNaN then y else invalid
    else ⟨result.toBits⟩

/-- The remainder of truncated division, exact, with the sign of the dividend. -/
def remainder (x y : Binary64) : Binary64 :=
  if x.isNaN then x
  else if y.isNaN then y
  else if x.isInfinite || y.isZero then invalid
  else if y.isInfinite || x.isZero then x
  else
    let (xNum, xDen) := x.magnitude
    let (yNum, yDen) := y.magnitude
    ofRatio x.isNegative (xNum * yDen % (yNum * xDen)) (xDen * yDen)

/-- The remainder of floored division: it has the sign of the divisor. -/
def modulo (x y : Binary64) : Binary64 :=
  let rest := x.remainder y
  let differs := if less zero rest then less y zero else less rest zero && less zero y
  if differs then rest.add y else rest

/-- Floored division: the quotient is rounded before it is floored. -/
def floorDiv (x y : Binary64) : Binary64 := (x.div y).floor

end Binary64

end ScriptHost
