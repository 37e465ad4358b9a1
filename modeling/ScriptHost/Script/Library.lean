import ScriptHost.Script.Operators

/-!
# The standard functions

The functions of the language itself.  A message about a wrong argument names the function as its
caller wrote it, or by its place among the loaded modules.
-/

namespace ScriptHost

namespace Library

open MachineM ScriptM

/-- The name of a function in the tables of the loaded modules. -/
def globalName? (callee : Value) : ScriptM (Option String) := do
  let s ← get
  let tables := s.tables
  let modules := (tables[s.loaded.index]?.getD default).live
  return modules.findSome? fun (module, content) =>
    match module, content with
    | .str module, .table id =>
      (tables[id.index]?.getD default).live.findSome? fun (key, v) =>
        match key with
        | .str name =>
          if v == callee then
            let module := Utf8.decode module
            let name := Utf8.decode name
            some (if module = "_G" then name else s!"{module}.{name}")
          else none
        | _ => none
    | _, _ => none

/-- Raises a complaint about an argument of the function that runs. -/
def badArgument {α : Type} (place : Nat) (complaint : String) : ScriptM α := do
  let frame := (← get).frames.head?.getD default
  if frame.site.kind = "method" ∧ place = 1 then
    raiseAt 1 s!"calling '{frame.site.name}' on bad self ({complaint})"
  else
    let place := if frame.site.kind = "method" then place - 1 else place
    let name ← if frame.site.kind = "" then do pure ((← globalName? frame.callee).getD "?")
      else pure frame.site.name
    raiseAt 1 s!"bad argument #{place} to '{name}' ({complaint})"

/-- The argument at a place counted from one. -/
def arg (args : List Value) (place : Nat) : Value := args[place - 1]?.getD .nil

def foundType (args : List Value) (place : Nat) : ScriptM String := do
  match args[place - 1]? with
  | none => return "no value"
  | some .pointer => return "light userdata"
  | some v => typeName v

def badType {α : Type} (args : List Value) (place : Nat) (expected : String) : ScriptM α := do
  badArgument place s!"{expected} expected, got {← foundType args place}"

def checkAny (args : List Value) (place : Nat) : ScriptM Unit := do
  if args.length < place then badArgument place "value expected"

def checkTable (args : List Value) (place : Nat) : ScriptM TableId := do
  match arg args place with
  | .table id => return id
  | _ => badType args place "table"

def checkBytes (args : List Value) (place : Nat) : ScriptM ByteArray := do
  match (arg args place).bytes? with
  | some bytes => return bytes
  | none => badType args place "string"

def checkInteger (args : List Value) (place : Nat) : ScriptM Int := do
  let v := arg args place
  match v.integer?, v.number? with
  | some i, _ => return i.toInt
  | none, some _ => badArgument place "number has no integer representation"
  | none, none => badType args place "number"

def optional {α : Type} (args : List Value) (place : Nat) (default : α) (check : ScriptM α) :
    ScriptM α :=
  if (arg args place).isNil then pure default else check

def findBytes (pattern : List UInt8) : List UInt8 → Nat → Option Nat
  | [], index => if pattern.isEmpty then some index else none
  | b :: rest, index =>
    if pattern.isPrefixOf (b :: rest) then some index else findBytes pattern rest (index + 1)

/-- A position in a string of a length; negative ones count from its end. -/
def startPosition (position : Int) (length : Nat) : Nat :=
  if position > 0 then position.toNat
  else if position = 0 then 1
  else if position < -(length : Int) then 1
  else (length + position + 1).toNat

/-- Finds a text in another; patterns stand for themselves. -/
def find (args : List Value) : ScriptM (List Value) := do
  let subject ← checkBytes args 1
  let pattern ← checkBytes args 2
  let start := startPosition (← optional args 3 1 (checkInteger args 3)) subject.size
  if start > subject.size + 1 then return [.nil]
  match findBytes pattern.toList (subject.toList.drop (start - 1)) start with
  | some index => return [.int (.ofNat index), .int (.ofNat (index + pattern.size - 1))]
  | none => return [.nil]

def upperByte (b : UInt8) : UInt8 := if 97 ≤ b.toNat && b.toNat ≤ 122 then b - 32 else b

def select (args : List Value) : ScriptM (List Value) := do
  let rest := args.tail
  match args.head? with
  | some (.str bytes) =>
    if bytes.data[0]? = some 35 then return [.int (.ofNat rest.length)]
  | _ => pure ()
  let n ← checkInteger args 1
  if n < 0 then
    if rest.length < n.natAbs then badArgument 1 "index out of range"
    return rest.drop (rest.length - n.natAbs)
  else if n = 0 then badArgument 1 "index out of range"
  else return rest.drop (n.toNat - 1)

def checkMetatable (args : List Value) : ScriptM (Option TableId) :=
  match args with
  | _ :: .nil :: _ => return none
  | _ :: .table id :: _ => return some id
  | _ => badType args 2 "nil or table"

def setMetatable (args : List Value) : ScriptM (List Value) := do
  let id ← checkTable args 1
  let new ← checkMetatable args
  if !(← metamethod (.table id) "metatable").isNil then
    raiseAt 1 "cannot change a protected metatable"
  modifyTable id fun t => { t with metatable := new }
  return [.table id]

def getMetatable (args : List Value) : ScriptM (List Value) := do
  checkAny args 1
  match arg args 1 with
  | .fault _ => return [.bool false]
  | v =>
    match ← ScriptM.metatable v with
    | none => return [.nil]
    | some id =>
      let shown ← metamethod v "metatable"
      return [if shown.isNil then .table id else shown]

def error (args : List Value) : ScriptM (List Value) := do
  let level ← optional args 2 1 (checkInteger args 2)
  match arg args 1 with
  | .str bytes =>
    if level > 0 then fail (.str ((← position level.toNat) ++ bytes)) else fail (.str bytes)
  | v => fail v

def assert (args : List Value) : ScriptM (List Value) := do
  if (arg args 1).truthy then return args
  checkAny args 1
  match args with
  | [_] => raiseAt 1 "assertion failed!"
  | _ => fail (arg args 2)

def nextEntry (args : List Value) : ScriptM (List Value) := do
  let id ← checkTable args 1
  match (← table id).next? (arg args 2) with
  | none => raise "invalid key to 'next'"
  | some none => return [.nil]
  | some (some (key, v)) => return [key, v]

section

variable (call : Caller)

/-- The length of a table as an integer, which a metatable may give. -/
def lengthOf (id : TableId) : ScriptM Int := do
  match (← ScriptM.length call (.table id) {}).integer? with
  | some n => return n.toInt
  | none => raiseAt 1 "object length is not an integer"

def item (id : TableId) (index : Int) : ScriptM Value :=
  ScriptM.index call {} (.table id) (.int (.ofInt index))

def setItem (id : TableId) (index : Int) (v : Value) : ScriptM Unit :=
  ScriptM.store call {} (.table id) (.int (.ofInt index)) v

def concatItems (id : TableId) (separator : ByteArray) : Nat → Int → ByteArray → ScriptM ByteArray
  | 0, _, done => pure done
  | count + 1, index, done => do
    let v ← item call id index
    match v.bytes? with
    | none => raiseAt 1 s!"invalid value ({v.type}) at index {index} in table for 'concat'"
    | some bytes =>
      let done := done ++ bytes
      concatItems id separator count (index + 1) (if count = 0 then done else done ++ separator)

def concat (args : List Value) : ScriptM (List Value) := do
  let id ← checkTable args 1
  let length ← lengthOf call id
  let separator ← optional args 2 .empty (checkBytes args 2)
  let first ← optional args 3 1 (checkInteger args 3)
  let last ← optional args 4 length (checkInteger args 4)
  return [.str (← concatItems call id separator (last - first + 1).toNat first .empty)]

/-- Moves the items of positions up to `last` one further, the last one first. -/
def shiftUp (id : TableId) : Nat → Int → ScriptM Unit
  | 0, _ => pure ()
  | count + 1, last => do
    setItem call id (last + 1) (← item call id last)
    shiftUp id count (last - 1)

def insert (args : List Value) : ScriptM (List Value) := do
  let id ← checkTable args 1
  let next := (← lengthOf call id) + 1
  match args with
  | [_, v] =>
    setItem call id next v
    return []
  | [_, _, v] =>
    let place ← checkInteger args 2
    if place < 1 ∨ next < place then badArgument 2 "position out of bounds"
    shiftUp call id (next - place).toNat (next - 1)
    setItem call id place v
    return []
  | _ => raiseAt 1 "wrong number of arguments to 'insert'"

/-- Whether one value comes before another in the order of a sort. -/
def before (order : Value) (a b : Value) : ScriptM Bool := do
  if order.isNil then ScriptM.less call a b
  else return (first (← call {} order [a, b])).truthy

def invalidOrder {α : Type} : ScriptM α := raiseAt 1 "invalid order function for sorting"

/-- Goes up from a position as long as items come before the pivot. -/
def climb (order : Value) (id : TableId) (pivot : Value) (last : Int) :
    Nat → Int → ScriptM (Int × Value)
  | 0, _ => invalidOrder
  | fuel + 1, i => do
    let v ← item call id i
    if ← before call order v pivot then
      if i = last then invalidOrder else climb order id pivot last fuel (i + 1)
    else return (i, v)

/-- Goes down from a position as long as the pivot comes before the items. -/
def sink (order : Value) (id : TableId) (pivot : Value) (least : Int) :
    Nat → Int → ScriptM (Int × Value)
  | 0, _ => invalidOrder
  | fuel + 1, j => do
    let v ← item call id j
    if ← before call order pivot v then
      if j < least then invalidOrder else sink order id pivot least fuel (j - 1)
    else return (j, v)

/-- Parts the items between two positions around the pivot, which is next to the last of them. -/
def part (order : Value) (id : TableId) (pivot : Value) (up : Int) :
    Nat → Int → Int → ScriptM Int
  | 0, i, _ => pure i
  | fuel + 1, i, j => do
    let (i, a) ← climb call order id pivot (up - 1) (up - i).toNat (i + 1)
    let (j, b) ← sink call order id pivot i (j - i + 2).toNat (j - 1)
    if j < i then
      setItem call id (up - 1) a
      setItem call id i pivot
      return i
    else
      setItem call id i b
      setItem call id j a
      part order id pivot up fuel i j

/-- Puts two items in order. -/
def settle (order : Value) (id : TableId) (low high : Int) : ScriptM Bool := do
  let a ← item call id low
  let b ← item call id high
  if ← before call order b a then
    setItem call id low b
    setItem call id high a
    return true
  else return false

/-- Sorts the items between two positions; every part is smaller than the whole. -/
def sortRange (order : Value) (id : TableId) : Nat → Int → Int → ScriptM Unit
  | 0, _, _ => pure ()
  | fuel + 1, low, up => do
    if up ≤ low then return
    discard (settle call order id low up)
    if up - low = 1 then return
    let middle := (low + up) / 2
    unless ← settle call order id low middle do
      discard (settle call order id middle up)
    if up - low = 2 then return
    let pivot ← item call id middle
    setItem call id middle (← item call id (up - 1))
    setItem call id (up - 1) pivot
    let p ← part call order id pivot up (up - low).toNat low (up - 1)
    if p - low < up - p then
      sortRange order id fuel low (p - 1)
      sortRange order id fuel (p + 1) up
    else
      sortRange order id fuel (p + 1) up
      sortRange order id fuel low (p - 1)

def sort (args : List Value) : ScriptM (List Value) := do
  let id ← checkTable args 1
  let n ← lengthOf call id
  if n > 1 then
    match arg args 2 with
    | .nil | .function _ => pure ()
    | _ => badType args 2 "function"
    sortRange call (arg args 2) id n.toNat 1 n
  return []

def ipairsNext (args : List Value) : ScriptM (List Value) := do
  let index := (← checkInteger args 2) + 1
  let v ← ScriptM.index call {} (arg args 1) (.int (.ofInt index))
  if v.isNil then return [.nil] else return [.int (.ofInt index), v]

def pairs (args : List Value) : ScriptM (List Value) := do
  checkAny args 1
  let subject := arg args 1
  let event ← metamethod subject "pairs"
  if event.isNil then return [(← get).nextFunction, subject, .nil]
  else
    let results ← call (metaSite "pairs") event [subject]
    return [arg results 1, arg results 2, arg results 3]

def pcall (args : List Value) : ScriptM (List Value) := do
  checkAny args 1
  match ← attempt (call {} (arg args 1) args.tail) with
  | .ok results => return .bool true :: results
  | .error v => return [.bool false, v]

/-- The file names that a search path gives for a module. -/
def pathNames (name : String) (templates : String) : List String :=
  (splitText ';' templates).map fun template =>
    replaceText "?" (replaceText "." "/" name) template

/-- A file of script text without a mark of its encoding and a first line of comment. -/
def withoutHeader (bytes : List UInt8) : List UInt8 :=
  let bytes := if [0xef, 0xbb, 0xbf].isPrefixOf bytes then bytes.drop 3 else bytes
  match bytes with
  | 35 :: _ => bytes.dropWhile (· != 10)
  | bytes => bytes

/-- The message of an error in the text of a chunk. -/
def grammarMessage (chunk : String) (line : Nat) (message : String) : String :=
  Utf8.decode (chunkText chunk) ++ ":" ++ toString line ++ ": " ++ message

/-- The function of a program, whose variable `_ENV` is the table of globals. -/
def load (chunk : String) (bytes : ByteArray) : MachineM ScriptError Value := do
  let s ← get
  match Routine.ofBytes bytes ["_ENV"] s.nesting with
  | .ok routine =>
    let globals ← newCell (.table s.globals)
    newFunction (.closure routine #[globals] (chunkText chunk))
  | .error (.malformed line message) => fail (.malformed (grammarMessage chunk line message))
  | .error .tooDeep => fail (.runtime "C stack overflow")

/-- The function of a program that the host gives a name, which holds no zero. -/
def loadNamed (chunk : String) (bytes : ByteArray) : MachineM ScriptError Value :=
  match chunk.toByteArray.toList.findIdx? (· == 0) with
  | some position =>
    fail (.runtime s!"invalid name: nul byte found in provided data at position: {position}")
  | none => load chunk bytes

/-- What went wrong with a program, without the kind of the error. -/
def reason : ScriptError → String
  | .malformed text | .runtime text => text
  | e => e.message

def packagePath (field : String) : ScriptM String := do
  match ← ScriptM.index call {} (.table (← get).package) (.text field) with
  | .str bytes => return Utf8.decode bytes
  | _ => raiseAt 1 s!"'package.{field}' must be a string"

def missingFiles (names : List String) : String :=
  String.join (names.map fun name => s!"\n\tno file '{name}'")

/-- The function of a module's file, with the path as its place. -/
def fileLoader (s : Machine) (name path : String) : ScriptM (Value × Value) := do
  let failed (reason : String) : ScriptM (Value × Value) :=
    raiseAt 1 s!"error loading module '{name}' from file '{path}':\n\t{reason}"
  match s.files.readBytes path with
  | .error _ => failed s!"cannot read {path}"
  | .ok bytes =>
    match ← attempt (load ("@" ++ path) (.mk (withoutHeader bytes.toList).toArray)) with
    | .ok f => return (f, .text path)
    | .error e => failed (reason e)

/-- Finds the loader of a module in the file system. -/
def searchFiles (s : Machine) (name : String) : ScriptM (Value × Value) := do
  let scripts := pathNames name (← packagePath call "path")
  match scripts.find? fun path => (s.files.resolve path).isOk with
  | some path => fileLoader s name path
  | none =>
    let natives := pathNames name (← packagePath call "cpath")
    match natives.find? fun path => (s.files.resolve path).isOk with
    | some path =>
      raiseAt 1 s!"error loading module '{name}' from file '{path}':\n\t{path}: file too short"
    | none =>
      let missing := missingFiles scripts ++ missingFiles natives
      raiseAt 1 s!"module '{name}' not found:\n\tno field package.preload['{name}']{missing}"

/-- Finds the loader of a module and what to tell it about the module's place. -/
def findLoader (name : String) : ScriptM (Value × Value) := do
  let s ← get
  match ← rawGet s.package (.text "preload") with
  | .table preload =>
    let loader ← rawGet preload (.text name)
    if loader.isNil then searchFiles call s name else return (loader, .text ":preload:")
  | _ => searchFiles call s name

/-- The interpreter's own way to find a module. -/
def require (args : List Value) : ScriptM (List Value) := do
  let name ← checkBytes args 1
  let loaded := (← get).loaded
  let key := Value.str name
  let present ← rawGet loaded key
  if present.truthy then return [present]
  let (loader, data) ← findLoader call (Utf8.decode name)
  let v := first (← call {} loader [key, data])
  if !v.isNil then rawSet loaded key v
  if (← rawGet loaded key).isNil then rawSet loaded key (.bool true)
  return [← rawGet loaded key, data]

/-- What a standard function does with its arguments. -/
def standard (f : Standard) (args : List Value) : ScriptM (List Value) :=
  match f with
  | .assert => assert args
  | .error => error args
  | .getMetatable => getMetatable args
  | .ipairs => do
    checkAny args 1
    return [(← get).nextItemFunction, arg args 1, .int 0]
  | .ipairsNext => ipairsNext call args
  | .next => nextEntry args
  | .pairs => pairs call args
  | .pcall => pcall call args
  | .print => do
    discard (args.mapM (ScriptM.text call))
    return []
  | .rawEqual => do
    checkAny args 1
    checkAny args 2
    return [.bool ((arg args 1).rawEquals (arg args 2))]
  | .rawGet => do
    let id ← checkTable args 1
    checkAny args 2
    return [← MachineM.rawGet id (arg args 2)]
  | .rawLen =>
    match arg args 1 with
    | .table id => do return [.int (.ofNat (← rawLength id))]
    | .str bytes => return [.int (.ofNat bytes.size)]
    | _ => badType args 1 "table or string"
  | .rawSet => do
    let id ← checkTable args 1
    checkAny args 2
    checkAny args 3
    rawStore id (arg args 2) (arg args 3)
    return [.table id]
  | .require => require call args
  | .select => select args
  | .setMetatable => setMetatable args
  | .toString => do
    checkAny args 1
    return [.str (← ScriptM.text call (arg args 1))]
  | .type => do
    checkAny args 1
    return [.text (arg args 1).type]
  | .mathType => do
    checkAny args 1
    match arg args 1 with
    | .int _ => return [.text "integer"]
    | .float _ => return [.text "float"]
    | _ => return [.nil]
  | .stringFind => find args
  | .stringUpper => do
    let bytes ← checkBytes args 1
    return [.str (.mk (bytes.data.map upperByte))]
  | .tableConcat => concat call args
  | .tableInsert => insert call args
  | .tableSort => sort call args
  | .coroutineCreate => do
    match arg args 1 with
    | .function id => return [← newThread (.function id)]
    | _ => badType args 1 "function"
  | .onTexts op => do
    let event := Arithmetic.eventName op
    return [← onTexts call event (Arithmetic.apply op) (arg args 1) (arg args 2)]
  | .negateText => do
    return [← onTexts call "unm" (fun n _ => .ok n.neg) (arg args 1) (arg args 2)]
  | .other name => raise (name ++ " is not supported")

end

end Library

end ScriptHost
