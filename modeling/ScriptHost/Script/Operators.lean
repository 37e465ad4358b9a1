import ScriptHost.Script.Arithmetic
import ScriptHost.Script.Machine

/-!
# Operators

What the operators of scripts do with values of every type.  Where a type has no meaning of its own
for an operator, the metatable of an operand may give one; otherwise the message names the operand
as it is written.
-/

namespace ScriptHost

/-- How an operand is written, for messages: its kind and name, if it has one. -/
structure Origin where
  kind : String := ""
  name : String := ""
deriving Inhabited

namespace Origin

def text (o : Origin) : String := if o.kind = "" then "" else s!" ({o.kind} '{o.name}')"

end Origin

namespace Ordering

/-- The order of byte strings. -/
def ofBytes : List UInt8 → List UInt8 → Ordering
  | [], [] => .eq
  | [], _ => .lt
  | _, [] => .gt
  | a :: as, b :: bs => if a < b then .lt else if b < a then .gt else ofBytes as bs

end Ordering

namespace ScriptM

open MachineM

/-- The number of the standard streams. -/
def streamCount : Nat := 3

def metatable (v : Value) : ScriptM (Option TableId) := do
  match v with
  | .table id => return (← table id).metatable
  | .str _ => return (← get).stringMeta
  | .userdata index => do
    let s ← get
    return if index < streamCount then s.streamMeta else none
  | _ => return none

/-- What the metatable of a value has for an event. -/
def metamethod (v : Value) (event : String) : ScriptM Value := do
  match ← metatable v with
  | some id => rawGet id (.text ("__" ++ event))
  | none => return .nil

/-- The type of a value as messages name it; a metatable may give a name of its own. -/
def typeName (v : Value) : ScriptM String := do
  match v with
  | .table _ | .userdata _ =>
    match ← metamethod v "name" with
    | .str name => return Utf8.decode name
    | _ => return v.type
  | _ => return v.type

def raiseType {α : Type} (action : String) (v : Value) (origin : Origin) : ScriptM α := do
  raise s!"attempt to {action} a {← typeName v} value{origin.text}"

def metaSite (event : String) : CallSite := { kind := "metamethod", name := event }

def first (values : List Value) : Value := values.head?.getD .nil

/-- The function that a call runs, with its arguments; a metatable may give one for other values. -/
def callable (site : CallSite) : Nat → Value → List Value → ScriptM (FunctionId × List Value)
  | _, .function id, args => return (id, args)
  | 0, _, _ => raise "stack overflow"
  | fuel + 1, f, args => do
    let event ← metamethod f "call"
    if event.isNil then raiseType "call" f ⟨site.kind, site.name⟩
    else callable site fuel event (f :: args)

/-- A chain of metatables may be this long. -/
def chainLimit : Nat := 2000

section

variable (call : Caller)

def indexFrom (origin : Origin) (key : Value) : Nat → Value → ScriptM Value
  | 0, _ => raise "'__index' chain too long; possibly a loop"
  | fuel + 1, subject => do
    let event ← match subject with
      | .table id => do
        let found ← rawGet id key
        if !found.isNil then return found
        let event ← metamethod subject "index"
        if event.isNil then return .nil
        pure event
      | _ => do
        let event ← metamethod subject "index"
        if event.isNil then raiseType "index" subject origin
        pure event
    match event with
    | .function _ => return first (← call (metaSite "index") event [subject, key])
    | next => indexFrom {} key fuel next

/-- The value under a key. -/
def index (origin : Origin) (subject key : Value) : ScriptM Value :=
  indexFrom call origin key chainLimit subject

/-- Sets an entry of a table itself. -/
def rawStore (id : TableId) (key value : Value) : ScriptM Unit :=
  match key with
  | .nil => raise "table index is nil"
  | .float x => if x.isNaN then raise "table index is NaN" else rawSet id key value
  | key => rawSet id key value

def storeFrom (origin : Origin) (key value : Value) : Nat → Value → ScriptM Unit
  | 0, _ => raise "'__newindex' chain too long; possibly a loop"
  | fuel + 1, subject => do
    let event ← match subject with
      | .table id => do
        let present := !(← rawGet id key).isNil
        let event ← if present then pure .nil else metamethod subject "newindex"
        if event.isNil then return ← rawStore id key value
        pure event
      | _ => do
        let event ← metamethod subject "newindex"
        if event.isNil then raiseType "index" subject origin
        pure event
    match event with
    | .function _ => discard (call (metaSite "newindex") event [subject, key, value])
    | next => storeFrom {} key value fuel next

/-- Sets the value under a key. -/
def store (origin : Origin) (subject key value : Value) : ScriptM Unit :=
  storeFrom call origin key value chainLimit subject

/-- The metamethod of the first operand for an event, or that of the second. -/
def eitherMetamethod (a b : Value) (event : String) : ScriptM Value := do
  let found ← metamethod a event
  if found.isNil then metamethod b event else return found

/-- Complains that an operator does not take an operand; of two, the first that is no number. -/
def raiseOperand {α : Type} (action : String) (a b : Value) (originA originB : Origin) :
    ScriptM α :=
  if a.isNumber then raiseType action b originB else raiseType action a originA

/-- Complains about the first of two numbers that is no integer. -/
def raiseNotIntegral {α : Type} (a : Value) (originA originB : Origin) : ScriptM α :=
  let origin := if a.integer?.isSome then originB else originA
  raise s!"number{origin.text} has no integer representation"

/-- An operator on values at least one of which is no number. -/
def viaMetamethod (event : String) (a b : Value) (otherwise : ScriptM Value) : ScriptM Value := do
  let found ← eitherMetamethod a b event
  if found.isNil then otherwise else return first (← call (metaSite event) found [a, b])

def arithmetic (op : BinaryOp) (a b : Value) (originA originB : Origin) : ScriptM Value :=
  match a.numeral?, b.numeral? with
  | some x, some y =>
    match Arithmetic.apply op x y with
    | .ok n => return .ofNumeral n
    | .error .notIntegral => raiseNotIntegral a originA originB
    | .error failure => raise failure.message
  | _, _ =>
    let event := Arithmetic.eventName op
    if Arithmetic.isBitwise op then
      match a.integer?, b.integer? with
      | some x, some y => return .int (Arithmetic.onBits op x y)
      | _, _ =>
        viaMetamethod call event a b
          (raiseOperand "perform bitwise operation on" a b originA originB)
    else
      viaMetamethod call event a b (raiseOperand "perform arithmetic on" a b originA originB)

/-- What strings do for an operator that numbers have: numerals in them count as numbers. -/
def onTexts (event : String) (apply : Numeral → Numeral → Except Arithmetic.Failure Numeral)
    (a b : Value) : ScriptM Value := do
  match a.number?, b.number? with
  | some x, some y =>
    match apply x y with
    | .ok n => return .ofNumeral n
    | .error failure => raise failure.message
  | _, _ =>
    let found ← if b.isString then pure .nil else metamethod b event
    if found.isNil then raiseAt 1 s!"attempt to {event} a '{a.type}' with a '{b.type}'"
    else return first (← call {} found [a, b])

def concat (a b : Value) (originA originB : Origin) : ScriptM Value := do
  match a.bytes?, b.bytes? with
  | some x, some y => return .str (x ++ y)
  | x, _ =>
    let found ← eitherMetamethod a b "concat"
    if found.isNil then
      if x.isSome then raiseType "concatenate" b originB else raiseType "concatenate" a originA
    else return first (← call (metaSite "concat") found [a, b])

def equal (a b : Value) : ScriptM Bool := do
  if a.rawEquals b then return true
  match a, b with
  | .table _, .table _ =>
    let found ← eitherMetamethod a b "eq"
    if found.isNil then return false
    else return (first (← call (metaSite "eq") found [a, b])).truthy
  | _, _ => return false

/-- Compares by a rule on numbers, a rule on strings, or a metamethod. -/
def compare (event : String) (numbers : Numeral → Numeral → Bool) (strings : Ordering → Bool)
    (a b : Value) (otherwise : ScriptM Bool) : ScriptM Bool := do
  match a.numeral?, b.numeral?, a, b with
  | some x, some y, _, _ => return numbers x y
  | _, _, .str x, .str y => return strings (Ordering.ofBytes x.toList y.toList)
  | _, _, _, _ =>
    let found ← eitherMetamethod a b event
    if found.isNil then otherwise
    else return (first (← call (metaSite event) found [a, b])).truthy

def raiseOrder {α : Type} (a b : Value) : ScriptM α := do
  let left ← typeName a
  let right ← typeName b
  if left = right then raise s!"attempt to compare two {left} values"
  else raise s!"attempt to compare {left} with {right}"

def less (a b : Value) : ScriptM Bool :=
  compare call "lt" Value.numberLess (· == .lt) a b (raiseOrder a b)

/-- Where no metatable says when one value is at most another, it is when that is not less. -/
def atMost (a b : Value) : ScriptM Bool :=
  compare call "le" Value.numberAtMost (· != .gt) a b do
    let found ← eitherMetamethod b a "lt"
    if found.isNil then raiseOrder a b
    else return !(first (← call (metaSite "lt") found [b, a])).truthy

def length (v : Value) (origin : Origin) : ScriptM Value := do
  match v with
  | .str bytes => return .int (.ofNat bytes.size)
  | v =>
    let found ← metamethod v "len"
    if !found.isNil then return first (← call (metaSite "len") found [v, v])
    match v with
    | .table id => return .int (.ofNat (← rawLength id))
    | v => raiseType "get length of" v origin

def unary (op : UnaryOp) (v : Value) (origin : Origin) : ScriptM Value := do
  match op with
  | .not => return .bool (!v.truthy)
  | .length => length call v origin
  | .minus =>
    match v.numeral? with
    | some n => return .ofNumeral n.neg
    | none => viaMetamethod call "unm" v v (raiseType "perform arithmetic on" v origin)
  | .complement =>
    match v.integer?, v.isNumber with
    | some i, _ => return .int (~~~ i)
    | none, true => raiseNotIntegral v origin origin
    | none, false =>
      viaMetamethod call "bnot" v v (raiseType "perform bitwise operation on" v origin)

/-- The result of an operator that evaluates both operands. -/
def binary (op : BinaryOp) (a b : Value) (originA originB : Origin) : ScriptM Value :=
  match op with
  | .concat => concat call a b originA originB
  | .equal => do return .bool (← equal call a b)
  | .unequal => do return .bool (!(← equal call a b))
  | .less => do return .bool (← less call a b)
  | .atMost => do return .bool (← atMost call a b)
  | .greater => do return .bool (← less call b a)
  | .atLeast => do return .bool (← atMost call b a)
  | op => arithmetic call op a b originA originB

/-- The text of a caught failure. -/
def faultText (index : Nat) : ScriptM String := do
  match ← fault index with
  | .error e => return e.message
  | .panic (some text) => return text
  | .panic none => return ScriptError.spentPanic.message

/-- The text of a value; a metatable may give one of its own. -/
def text (v : Value) : ScriptM ByteArray := do
  let found ← metamethod v "tostring"
  if !found.isNil then
    match (first (← call {} found [v])).bytes? with
    | some bytes => return bytes
    | none => raiseAt 1 "'__tostring' must return a string"
  else
    match v with
    | .nil => return "nil".toByteArray
    | .bool b => return (toString b).toByteArray
    | .str bytes => return bytes
    | .fault index => return (← faultText index).toByteArray
    | v =>
      match v.numberText? with
      | some text => return text.toByteArray
      | none => return ((← typeName v) ++ ": " ++ v.addressText).toByteArray

end

end ScriptM

end ScriptHost
