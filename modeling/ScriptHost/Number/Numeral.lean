import ScriptHost.Number.Binary64

/-!
# Reading numerals

A numeral of the script language is decimal or hexadecimal, with or without a fraction and an
exponent.  Without either it is an integer: hexadecimal ones wrap around at sixty-four bits, and
decimal ones that do not fit become floating-point numbers.
-/

namespace ScriptHost

/-- What a numeral stands for. -/
inductive Numeral where
  | integer (i : Int64)
  | float (x : Binary64)
deriving DecidableEq, Repr

namespace Numeral

def digit? (base : Nat) (c : Char) : Option Nat :=
  let value? :=
    if '0' ≤ c ∧ c ≤ '9' then some (c.toNat - '0'.toNat)
    else if 'a' ≤ c ∧ c ≤ 'f' then some (c.toNat - 'a'.toNat + 10)
    else if 'A' ≤ c ∧ c ≤ 'F' then some (c.toNat - 'A'.toNat + 10)
    else none
  value?.filter (· < base)

/-- The value and number of the leading digits, and the text after them. -/
def digits (base : Nat) : List Char → Nat → Nat → Nat × Nat × List Char
  | [], value, count => (value, count, [])
  | c :: rest, value, count =>
    match digit? base c with
    | some d => digits base rest (value * base + d) (count + 1)
    | none => (value, count, c :: rest)

/-- The digits of a whole part and, after a point, of a fraction. -/
structure Parts where
  value : Nat
  wholeCount : Nat
  fractionCount : Nat
  pointed : Bool
  rest : List Char

def parts (base : Nat) (text : List Char) : Parts :=
  let (whole, wholeCount, rest) := digits base text 0 0
  match rest with
  | '.' :: rest =>
    let (value, fractionCount, rest) := digits base rest whole 0
    ⟨value, wholeCount, fractionCount, true, rest⟩
  | rest => ⟨whole, wholeCount, 0, false, rest⟩

/-- An exponent after its letter; `none` if digits are missing. -/
def exponent? (text : List Char) : Option (Int × List Char) :=
  let (negative, text) := match text with
    | '-' :: rest => (true, rest)
    | '+' :: rest => (false, rest)
    | rest => (false, rest)
  let (value, count, rest) := digits 10 text 0 0
  if count = 0 then none else some (if negative then -(value : Int) else value, rest)

/-- Exponents beyond this bound give zero or infinity whatever the digits are. -/
def exponentBound : Int := 20000

def clamp (power : Int) : Int := max (-exponentBound) (min exponentBound power)

def scaledBy (base : Nat) (value : Nat) (power : Int) : Binary64 :=
  match clamp power with
  | .ofNat n => .ofRatio false (value * Nat.pow base n) 1
  | .negSucc n => .ofRatio false value (Nat.pow base (n + 1))

/-- The value of an unsigned numeral that is the whole text; decimal integers stay below `limit`. -/
def unsigned? (limit : Nat) (text : List Char) : Option Numeral :=
  match text with
  | '0' :: x :: rest =>
    if x = 'x' || x = 'X' then
      let p := parts 16 rest
      if p.wholeCount + p.fractionCount = 0 then none
      else
        match p.rest with
        | [] =>
          if p.pointed then some (.float (scaledBy 2 p.value (-(4 * p.fractionCount : Nat))))
          else some (.integer (Int64.ofNat p.value))
        | c :: rest =>
          if c = 'p' || c = 'P' then
            match exponent? rest with
            | some (power, []) =>
              some (.float (scaledBy 2 p.value (power - (4 * p.fractionCount : Nat))))
            | _ => none
          else none
    else decimal ('0' :: x :: rest)
  | text => decimal text
where
  decimal (text : List Char) : Option Numeral :=
    let p := parts 10 text
    if p.wholeCount + p.fractionCount = 0 then none
    else
      match p.rest with
      | [] =>
        if p.pointed then some (.float (scaledBy 10 p.value (-(p.fractionCount : Nat))))
        else if p.value < limit then some (.integer (Int64.ofNat p.value))
        else some (.float (.ofNat p.value))
      | c :: rest =>
        if c = 'e' || c = 'E' then
          match exponent? rest with
          | some (power, []) =>
            some (.float (scaledBy 10 p.value (power - (p.fractionCount : Nat))))
          | _ => none
        else none

def neg : Numeral → Numeral
  | .integer i => .integer (-i)
  | .float x => .float x.neg

def isBlank (c : Char) : Bool :=
  c = ' ' || c = '\t' || c = '\n' || c = '\r' || c = '\x0b' || c = '\x0c'

def trim (text : List Char) : List Char :=
  ((text.dropWhile isBlank).reverse.dropWhile isBlank).reverse

/-- The value of a text that is a numeral between blanks, with an optional sign. -/
def ofText? (text : List Char) : Option Numeral :=
  match trim text with
  | '-' :: rest => (unsigned? (Nat.pow 2 63 + 1) rest).map neg
  | '+' :: rest => unsigned? (Nat.pow 2 63) rest
  | text => unsigned? (Nat.pow 2 63) text

end Numeral

end ScriptHost
