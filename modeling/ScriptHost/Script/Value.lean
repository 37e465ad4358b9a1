import ScriptHost.Number.Numeral

/-!
# Script values

Scripts hold numbers of two kinds, byte strings, and references to tables, functions and other
things that are known by their identity.
-/

namespace ScriptHost

/-- The identity of a table. -/
structure TableId where
  index : Nat
deriving DecidableEq, Hashable, Inhabited, Repr

/-- The identity of a function. -/
structure FunctionId where
  index : Nat
deriving DecidableEq, Hashable, Inhabited, Repr

/-- Byte strings are compared by their bytes. -/
local instance bytesDecidableEq : DecidableEq ByteArray := ByteArray.instDecidableEq

inductive Value where
  | nil
  | bool (b : Bool)
  | int (i : Int64)
  | float (x : Binary64)
  | str (bytes : ByteArray)
  | table (id : TableId)
  | function (id : FunctionId)
  | thread (index : Nat)
  | userdata (index : Nat)
  /-- The null pointer. -/
  | pointer
  /-- A failure of the host, caught and held as a value. -/
  | fault (index : Nat)
deriving DecidableEq, Hashable, Inhabited

namespace Value

def text (s : String) : Value := .str s.toByteArray

def ofNumeral : Numeral → Value
  | .integer i => .int i
  | .float x => .float x

/-- Everything but nil and false counts as true. -/
def truthy : Value → Bool
  | .nil => false
  | .bool false => false
  | _ => true

def isNil : Value → Bool
  | .nil => true
  | _ => false

/-- The type as scripts name it. -/
def type : Value → String
  | .nil => "nil"
  | .bool _ => "boolean"
  | .int _ | .float _ => "number"
  | .str _ => "string"
  | .table _ => "table"
  | .function _ => "function"
  | .thread _ => "thread"
  | .userdata _ | .pointer | .fault _ => "userdata"

/-- The type as the host names it, which tells more of them apart. -/
def hostType : Value → String
  | .int _ => "integer"
  | .float _ => "number"
  | .pointer => "lightuserdata"
  | .fault _ => "error"
  | v => v.type

/-- Numbers are equal by value whatever their kind, everything else by identity or content. -/
def rawEquals : Value → Value → Bool
  | .int a, .float b => b.compareInt? a.toInt == some .eq
  | .float a, .int b => a.compareInt? b.toInt == some .eq
  | .float a, .float b => a.equals b
  | a, b => a == b

/-- The form in which a value is a table key: integral numbers are integers. -/
def asKey : Value → Value
  | .float x =>
    match x.toInt64? with
    | some i => .int i
    | none => .float x
  | v => v

/-- The form of a key is final. -/
@[simp] theorem asKey_asKey (v : Value) : v.asKey.asKey = v.asKey := by
  cases v with
  | float x => cases integral : x.toInt64? <;> simp [asKey, integral]
  | _ => rfl

/-- A value as a number, reading numerals out of strings. -/
def number? : Value → Option Numeral
  | .int i => some (.integer i)
  | .float x => some (.float x)
  | .str bytes => Numeral.ofText? (bytes.toList.map fun b => Char.ofNat b.toNat)
  | _ => none

/-- The address of a thing in the text that scripts and hosts show for it. -/
def address : Value → Nat
  | .table id => 0x100000000 + 64 * id.index
  | .function id => 0x100000000 + 64 * id.index + 16
  | .thread index => 0x100000000 + 64 * index + 32
  | .userdata index => 0x100000000 + 64 * index + 48
  | _ => 0

/-- An address in hexadecimal; the null pointer is `0x0`. -/
def addressText (v : Value) : String := "0x" ++ String.ofList (Nat.toDigits 16 v.address)

end Value

end ScriptHost
