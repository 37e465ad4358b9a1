import ScriptHost.Number.Digits
import ScriptHost.Script.Program
import ScriptHost.Script.Value

/-!
# Arithmetic

What the operators of scripts do with numbers.  Integers wrap around; an operation on numbers of two
kinds is one on floating-point numbers; operations on bits take integers only.
-/

namespace ScriptHost

namespace Value

/-- The text of a number in scripts. -/
def numberText? : Value → Option String
  | .int i => some (toString i.toInt)
  | .float x => some x.scriptText
  | _ => none

/-- The bytes of a string or of the text of a number. -/
def bytes? : Value → Option ByteArray
  | .str bytes => some bytes
  | v => v.numberText?.map (·.toByteArray)

/-- An integer, also out of an integral number or a numeral. -/
def integer? (v : Value) : Option Int64 :=
  match v.number? with
  | some (.integer i) => some i
  | some (.float x) => x.toInt64?
  | none => none

/-- The number that a value is; a numeral in a string is none. -/
def numeral? : Value → Option Numeral
  | .int i => some (.integer i)
  | .float x => some (.float x)
  | _ => none

def isNumber (v : Value) : Bool := v.numeral?.isSome

def isString : Value → Bool
  | .str _ => true
  | _ => false

def asBinary64 : Numeral → Binary64
  | .integer i => .ofInt64 i
  | .float x => x

/-- Whether one number comes before another. -/
def numberLess (a b : Numeral) : Bool :=
  match a, b with
  | .integer a, .integer b => a < b
  | .integer a, .float y => y.compareInt? a.toInt == some .gt
  | .float x, .integer b => x.compareInt? b.toInt == some .lt
  | .float x, .float y => x.less y

def numberAtMost (a b : Numeral) : Bool :=
  match a, b with
  | .integer a, .integer b => a ≤ b
  | .integer a, .float y =>
    y.compareInt? a.toInt == some .gt || y.compareInt? a.toInt == some .eq
  | .float x, .integer b =>
    x.compareInt? b.toInt == some .lt || x.compareInt? b.toInt == some .eq
  | .float x, .float y => x.atMost y

end Value

namespace Arithmetic

/-- Why two numbers have no result. -/
inductive Failure where
  | divisor
  | remainder
  | notIntegral
deriving DecidableEq, Repr

def Failure.message : Failure → String
  | divisor => "attempt to divide by zero"
  | remainder => "attempt to perform 'n%0'"
  | notIntegral => "number has no integer representation"

/-- Shifts to the left by a signed count; bits that leave the word are lost. -/
def shift (a count : Int64) : Int64 :=
  let n := count.toInt
  if n ≤ -64 ∨ 64 ≤ n then 0
  else if 0 ≤ n then (a.toUInt64 <<< n.toNat.toUInt64).toInt64
  else (a.toUInt64 >>> (-n).toNat.toUInt64).toInt64

def isBitwise : BinaryOp → Bool
  | .bitAnd | .bitOr | .bitXor | .shiftLeft | .shiftRight => true
  | _ => false

/-- Operators that take two numbers and give one. -/
def isNumeric : BinaryOp → Bool
  | .add | .sub | .mul | .div | .floorDiv | .mod | .pow => true
  | op => isBitwise op

def onBits (op : BinaryOp) (a b : Int64) : Int64 :=
  match op with
  | .bitAnd => a &&& b
  | .bitOr => a ||| b
  | .bitXor => a ^^^ b
  | .shiftLeft => shift a b
  | _ => if b = Int64.minValue then 0 else shift a (-b)

def onFloats (op : BinaryOp) (x y : Binary64) : Binary64 :=
  match op with
  | .add => x.add y
  | .sub => x.sub y
  | .mul => x.mul y
  | .div => x.div y
  | .floorDiv => x.floorDiv y
  | .mod => x.modulo y
  | _ => x.pow y

/-- The integer that a number is. -/
def integral? : Numeral → Option Int64
  | .integer i => some i
  | .float x => x.toInt64?

/-- The result of an operator on two numbers. -/
def apply (op : BinaryOp) (a b : Numeral) : Except Failure Numeral :=
  if isBitwise op then
    match integral? a, integral? b with
    | some a, some b => .ok (.integer (onBits op a b))
    | _, _ => .error .notIntegral
  else
    match a, b with
    | .integer a, .integer b =>
      match op with
      | .add => .ok (.integer (a + b))
      | .sub => .ok (.integer (a - b))
      | .mul => .ok (.integer (a * b))
      | .floorDiv =>
        if b = 0 then .error .divisor else .ok (.integer (.ofInt (a.toInt.fdiv b.toInt)))
      | .mod =>
        if b = 0 then .error .remainder else .ok (.integer (.ofInt (a.toInt.fmod b.toInt)))
      | op => .ok (.float (onFloats op (.ofInt64 a) (.ofInt64 b)))
    | a, b => .ok (.float (onFloats op (Value.asBinary64 a) (Value.asBinary64 b)))

/-- A result that a program may hold in place of the operation: no zero and no NaN of floats. -/
def settled? : Numeral → Option Numeral
  | .integer i => some (.integer i)
  | .float x => if x.isNaN || x.isZero then none else some (.float x)

def isZero : Numeral → Bool
  | .integer i => i == 0
  | .float x => x.isZero

/-- The result of an operator on two numerals in the text of a program, if it is settled there. -/
def fold? (op : BinaryOp) (a b : Numeral) : Option Numeral :=
  if !isNumeric op || ([.div, .floorDiv, .mod].contains op && isZero b) then none
  else
    match apply op a b with
    | .ok n => settled? n
    | .error _ => none

/-- The result of an operator on a numeral in the text of a program, if it is settled there. -/
def foldUnary? (op : UnaryOp) (n : Numeral) : Option Numeral :=
  match op with
  | .minus => settled? n.neg
  | .complement => (integral? n).map fun i => .integer (~~~ i)
  | _ => none

/-- The name of the metamethod of an operator. -/
def eventName : BinaryOp → String
  | .add => "add"
  | .sub => "sub"
  | .mul => "mul"
  | .div => "div"
  | .floorDiv => "idiv"
  | .mod => "mod"
  | .pow => "pow"
  | .concat => "concat"
  | .equal | .unequal => "eq"
  | .less | .greater => "lt"
  | .atMost | .atLeast => "le"
  | .bitAnd => "band"
  | .bitOr => "bor"
  | .bitXor => "bxor"
  | .shiftLeft => "shl"
  | .shiftRight => "shr"
  | .and => "and"
  | .or => "or"

end Arithmetic

end ScriptHost
