import ScriptHost.Number.Binary64

/-!
# Decimal texts of numbers

Two texts are in use.  The host writes the fewest digits that read back as the same number, always
positionally.  Scripts write at most fourteen significant digits, with an exponent outside the
usual range, and mark integral values with `.0`.
-/

namespace ScriptHost

/-- Decimal digits, most significant first, with the power of ten of the place before them: the
value is `0.d₁d₂… * 10 ^ place`. -/
structure Digits where
  digits : List Char
  place : Int
deriving DecidableEq, Repr

namespace Digits

def ofNat (n : Nat) : List Char := Nat.toDigits 10 n

def trimZeros (digits : List Char) : List Char := (digits.reverse.dropWhile (· == '0')).reverse

/-- The digits without an exponent; zeros fill the places up to the point. -/
def positional (d : Digits) : String :=
  if d.place ≤ 0 then
    "0." ++ String.ofList (List.replicate (-d.place).toNat '0' ++ d.digits)
  else
    let whole := d.place.toNat
    if d.digits.length ≤ whole then
      String.ofList (d.digits ++ List.replicate (whole - d.digits.length) '0')
    else
      String.ofList (d.digits.take whole) ++ "." ++ String.ofList (d.digits.drop whole)

/-- The place of the first digit of `num / den`: `10 ^ (place - 1) ≤ num / den < 10 ^ place`. -/
def leadingPlace (num den : Nat) : Int :=
  let guess : Int := (Nat.toDigits 10 num).length - (Nat.toDigits 10 den).length
  let reached : Bool := match guess with
    | .ofNat n => den * Nat.pow 10 n ≤ num
    | .negSucc n => den ≤ num * Nat.pow 10 (n + 1)
  if reached then guess + 1 else guess

/-- `num / den` in units of `10 ^ power`, as a ratio. -/
def inUnits (num den : Nat) (power : Int) : Nat × Nat :=
  match power with
  | .ofNat n => (num, den * Nat.pow 10 n)
  | .negSucc n => (num * Nat.pow 10 (n + 1), den)

/-- The digits of a natural number of units `10 ^ power`. -/
def ofUnits (units : Nat) (power : Int) : Digits :=
  let all := ofNat units
  ⟨trimZeros all, all.length + power⟩

/-- The value rounded to a number of significant digits, a half going to the even neighbour. -/
def rounded (count : Nat) (num den : Nat) : Digits :=
  let power := leadingPlace num den - count
  let (unitNum, unitDen) := inUnits num den power
  ofUnits (roundDiv unitNum unitDen) power

end Digits

namespace Binary64

/--
The ends of the interval of reals that round to a positive finite number, as numerators over four
times the denominator of its magnitude.
-/
def neighbourhood (x : Binary64) : Nat × Nat × Nat × Nat :=
  let (num, den) := x.magnitude
  let unit := match x.exponent with
    | .ofNat n => Nat.pow 2 n
    | .negSucc _ => 1
  let below := if x.fraction = 0 && 1 < x.biasedExponent then unit else 2 * unit
  (4 * num, 4 * num - below, 4 * num + 2 * unit, 4 * den)

/--
The nearest value of a decimal grid if it reads back as the number.  Both neighbours of the value
on the grid of `10 ^ power` are tried; the ends of the interval read back when the significand is
even.
-/
def onGrid? (x : Binary64) (power : Int) : Option Nat :=
  let (value, low, high, den) := x.neighbourhood
  let (valueNum, unitDen) := Digits.inUnits value den power
  let (lowNum, _) := Digits.inUnits low den power
  let (highNum, _) := Digits.inUnits high den power
  let even := x.significand % 2 == 0
  let readsBack (units : Nat) : Bool :=
    if even then lowNum ≤ units * unitDen && units * unitDen ≤ highNum
    else lowNum < units * unitDen && units * unitDen < highNum
  let below := valueNum / unitDen
  let above := below + 1
  let nearest := roundDiv valueNum unitDen
  if readsBack nearest then some nearest
  else if readsBack below then some below
  else if readsBack above then some above
  else none

/-- The first grid, from coarse to fine, that holds a decimal which reads back. -/
def shortestFrom (x : Binary64) (place : Int) : Nat → Nat → Digits
  | 0, _ =>
    let (num, den) := x.magnitude
    Digits.rounded 17 num den
  | left + 1, count =>
    match x.onGrid? (place - count) with
    | some units => Digits.ofUnits units (place - count)
    | none => x.shortestFrom place left (count + 1)

/-- The fewest digits that read back as a positive finite number. -/
def shortest (x : Binary64) : Digits :=
  let (num, den) := x.magnitude
  x.shortestFrom (Digits.leadingPlace num den) 17 1

/-- The host's text of a number: fewest digits, positional, no trailing point. -/
def hostText (x : Binary64) : String :=
  if x.isNaN then "NaN"
  else
    let sign := if x.isNegative then "-" else ""
    if x.isInfinite then sign ++ "inf"
    else if x.isZero then sign ++ "0"
    else sign ++ x.shortest.positional

/-- The exponent of a script's text has a sign and at least two digits. -/
def exponentText (power : Int) : String :=
  let digits := Digits.ofNat power.natAbs
  let padded := if digits.length < 2 then '0' :: digits else digits
  (if power < 0 then "-" else "+") ++ String.ofList padded

/-- A positive number with fourteen significant digits, trailing zeros dropped. -/
def fourteen (x : Binary64) : String :=
  let (num, den) := x.magnitude
  let d := Digits.rounded 14 num den
  let power := d.place - 1
  if power < -4 || 14 ≤ power then
    let mantissa := match d.digits with
      | first :: [] => String.singleton first
      | first :: rest => String.singleton first ++ "." ++ String.ofList rest
      | [] => "0"
    mantissa ++ "e" ++ exponentText power
  else d.positional

/-- A script's text of a number: integral looking texts are marked with `.0`. -/
def scriptText (x : Binary64) : String :=
  let sign := if x.isNegative then "-" else ""
  if x.isNaN then sign ++ "nan"
  else if x.isInfinite then sign ++ "inf"
  else if x.isZero then sign ++ "0.0"
  else
    let text := x.fourteen
    if text.all Char.isDigit then sign ++ text ++ ".0" else sign ++ text

end Binary64

end ScriptHost
