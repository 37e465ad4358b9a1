import ScriptHost.Script.Operators

/-!
# Evaluation

Expressions and statements are evaluated by recursion on their form; how values are called is a
parameter.  Variables live in cells, which functions share with the blocks around them.  An operand
that is a variable is read when its operation runs, after the operands behind it.
-/

namespace ScriptHost

/-- The cells in sight of a function. -/
structure Scope where
  /-- Those of its own variables, the last one first. -/
  locals : List Nat := []
  outer : Array Nat := #[]
  varargs : List Value := []
  chunk : ByteArray

def Scope.cellOf (scope : Scope) : Variable → Nat
  | .own place _ => scope.locals[place]?.getD 0
  | .outer place _ => scope.outer[place]?.getD 0

namespace Expr

/-- How an expression is written, for messages about its value. -/
def origin : Expr → Origin
  | .variable (.own _ name) => ⟨"local", name⟩
  | .variable (.outer _ name) => ⟨"upvalue", name⟩
  | .index (.variable (.own _ "_ENV")) (.text key) _
  | .index (.variable (.outer _ "_ENV")) (.text key) _ => ⟨"global", Utf8.decode key⟩
  | .index _ (.text key) _ => ⟨"field", Utf8.decode key⟩
  | .index _ (.number (.integer i)) _ =>
    if 0 ≤ i.toInt ∧ i.toInt < 256 then ⟨"field", "integer index"⟩ else ⟨"field", "?"⟩
  | .index .. => ⟨"field", "?"⟩
  | .text bytes => ⟨"constant", Utf8.decode bytes⟩
  | .paren inner => origin inner
  | _ => {}

/-- What a chain of concatenations begins with names its value inside the chain. -/
def linkOrigin : Expr → Origin
  | .binary .concat left _ _ => left.origin
  | e => e.origin

end Expr

/-- An operand whose value may still change. -/
inductive Operand where
  | value (v : Value)
  | cell (index : Nat)

/-- A place that can be assigned to. -/
inductive Place where
  | cell (index : Nat)
  | entry (subject key : Operand) (origin : Origin)

/-- How the statements of a block end. -/
inductive Ending where
  | done (scope : Scope)
  | left
  | returned (values : List Value)
  /-- With a call that takes the place of the function. -/
  | handedOver (f : FunctionId) (args : List Value)

/-- How the body of a function ends. -/
inductive Completion where
  | values (values : List Value)
  | call (f : FunctionId) (args : List Value)

namespace Evaluation

open MachineM ScriptM

def read : Operand → ScriptM Value
  | .value v => return v
  | .cell index => cell index

/-- An operand as it is now. -/
def settle (o : Operand) : ScriptM Operand := return .value (← read o)

/-- A place after its operands in a cell, which is about to change, were read. -/
def keep (index : Nat) : Place → ScriptM Place
  | .entry subject key origin => do
    return .entry (← held subject) (← held key) origin
  | place => return place
where
  held (o : Operand) : ScriptM Operand :=
    match o with
    | .cell other => if other = index then settle o else return o
    | o => return o

section

variable (call : Caller)

/-- How often a loop may turn before it counts as endless. -/
def turnLimit : Nat := Nat.pow 2 60

def endless {α : Type} : ScriptM α := throw .endless

def assign (place : Place) (v : Value) : ScriptM Unit :=
  match place with
  | .cell index => setCell index v
  | .entry subject key origin => do ScriptM.store call origin (← read subject) (← read key) v

/-- Assigns values to places, the last one first; values that are missing are nil. -/
def assignAll : List Place → List Value → ScriptM Unit
  | [], _ => pure ()
  | place :: places, values => do
    assignAll places values.tail
    assign call place (first values)

/-- Adds variables to a scope; values that are missing are nil. -/
def bind (scope : Scope) : Nat → List Value → ScriptM Scope
  | 0, _ => pure scope
  | count + 1, values => do
    let index ← newCell (first values)
    bind { scope with locals := index :: scope.locals } count values.tail

def closure (scope : Scope) (routine : Routine) : ScriptM Value :=
  newFunction (.closure routine (routine.outer.toArray.map scope.cellOf) scope.chunk)

/-- Sets the items of a table from a position on. -/
def setItems (id : TableId) (position : Nat) (values : List Value) : ScriptM Unit :=
  modifyTable id fun t =>
    (values.foldl (fun (t, position) v => (t.set (.int (.ofNat position)) v, position + 1))
      (t.lengthen (position + values.length - 1), position)).1

/-- Calls what was evaluated at some place of the text. -/
def callAt (line slot : Nat) (written : Origin) (f : Value) (args : List Value) :
    ScriptM (List Value) := do
  setLine line
  call { kind := written.kind, name := written.name, slot := some slot } f args

/-- Ends a function with a call at some place of the text. -/
def handOver (line slot : Nat) (written : Origin) (f : Value) (args : List Value) :
    ScriptM Ending := do
  setLine line
  let site : CallSite := { kind := written.kind, name := written.name, slot := some slot }
  let (id, args) ← callable site stackLimit f args
  match ← function id with
  | .native _ => return .returned (← call site (.function id) args)
  | .closure routine _ _ =>
    checkRoom ((← get).frames.head?.map (·.start) |>.getD 0) args.length routine.slots
    return .handedOver id args

/-- Turns a loop as long as the condition holds. -/
def turnWhile (condition : ScriptM Value) (body : ScriptM Ending) : Nat → ScriptM (Option Ending)
  | 0 => endless
  | fuel + 1 => do
    if !(← condition).truthy then return none
    match ← body with
    | .done _ => turnWhile condition body fuel
    | .left => return none
    | ending => return some ending

/-- Turns a loop until the condition holds after its body. -/
def turnUntil (body : ScriptM Ending) (condition : Scope → ScriptM Value) :
    Nat → ScriptM (Option Ending)
  | 0 => endless
  | fuel + 1 => do
    match ← body with
    | .done scope =>
      if (← condition scope).truthy then return none else turnUntil body condition fuel
    | .left => return none
    | ending => return some ending

/-- Turns a counting loop over integers; `count` turns are left after this one. -/
def countIntegers (step : Int64) (body : Value → ScriptM Ending) :
    Nat → Int64 → ScriptM (Option Ending)
  | count, i => do
    match ← body (.int i) with
    | .left => return none
    | .done _ =>
      match count with
      | 0 => return none
      | count + 1 => countIntegers step body count (i + step)
    | ending => return some ending

/-- Turns a counting loop over floating-point numbers, the first of which is within the limit. -/
def countFloats (limit step : Binary64) (body : Value → ScriptM Ending) :
    Nat → Binary64 → ScriptM (Option Ending)
  | 0, _ => endless
  | fuel + 1, x => do
    match ← body (.float x) with
    | .left => return none
    | .done _ =>
      let next := x.add step
      let inside := if Binary64.zero.less step then next.atMost limit else limit.atMost next
      if inside then countFloats limit step body fuel next else return none
    | ending => return some ending

/-- The integer that bounds a loop; a number beyond all integers bounds it at their ends. -/
def integerBound (limit : Numeral) (step : Int64) : Int64 :=
  match limit with
  | .integer i => i
  | .float x =>
    match (if step > 0 then x.floor else x.neg.floor.neg).toInt64? with
    | some i => i
    | none => if Binary64.zero.less x then .maxValue else .minValue

/-- Whether a loop towards a limit beyond all integers goes the other way. -/
def goesAway (limit : Numeral) (step : Int64) : Bool :=
  match limit with
  | .integer _ => false
  | .float x =>
    ((if step > 0 then x.floor else x.neg.floor.neg).toInt64?).isNone
      && (Binary64.zero.less x == decide (step < 0))

/-- The integers of a counting loop after the first; `none` if there is not even that. -/
def integerTurns (start : Int64) (limit : Numeral) (step : Int64) : Option Nat :=
  let bound := integerBound limit step
  if goesAway limit step then none
  else if step > 0 then
    if bound < start then none else some ((bound.toInt - start.toInt) / step.toInt).toNat
  else
    if start < bound then none else some ((start.toInt - bound.toInt) / (-step.toInt)).toNat

def loopNumber (what : String) (v : Value) : ScriptM Numeral := do
  match v.number? with
  | some n => return n
  | none => raise s!"bad 'for' {what} (number expected, got {← typeName v})"

/-- Turns a counting loop from a start to a limit. -/
def countLoop (start limit step : Value) (body : Value → ScriptM Ending) :
    ScriptM (Option Ending) := do
  match start, step with
  | .int first, .int stride =>
    if stride = 0 then raise "'for' step is zero"
    let bound ← loopNumber "limit" limit
    match integerTurns first bound stride with
    | none => return none
    | some count => countIntegers stride body count first
  | start, step =>
    let limit := Value.asBinary64 (← loopNumber "limit" limit)
    let step := Value.asBinary64 (← loopNumber "step" step)
    let start := Value.asBinary64 (← loopNumber "initial value" start)
    if step.isZero then raise "'for' step is zero"
    let outside := if Binary64.zero.less step then limit.less start else start.less limit
    if outside then return none
    countFloats limit step body turnLimit start

def iteratorSite : CallSite := { kind := "for iterator", name := "for iterator" }

/-- Turns a loop over what an iterator yields, until that begins with nil. -/
def eachLoop (line : Nat) (iterator state : Value) (body : List Value → ScriptM Ending) :
    Nat → Value → ScriptM (Option Ending)
  | 0, _ => endless
  | fuel + 1, control => do
    setLine line
    let values ← call iteratorSite iterator [state, control]
    let control := first values
    if control.isNil then return none
    match ← body values with
    | .left => return none
    | .done _ => eachLoop line iterator state body fuel control
    | ending => return some ending

/-- Refuses a fourth value of a loop over an iterator that cannot be closed. -/
def checkClosable (v : Value) : ScriptM Unit := do
  if v.truthy && (← metamethod v "close").isNil then
    raise "variable '(for state)' got a non-closable value"

mutual

/-- The value of an expression, the first of many. -/
def value (scope : Scope) : Expr → ScriptM Value
  | .nil => return .nil
  | .bool b => return .bool b
  | .number n => return .ofNumeral n
  | .text bytes => return .str bytes
  | .varargs => return first scope.varargs
  | .variable v => cell (scope.cellOf v)
  | .index subject key line => do
    let s ← subjectOf scope subject
    let k ← value scope key
    setLine line
    ScriptM.index call subject.origin (← read s) k
  | .call callee args line slot => do
    let f ← value scope callee
    let values ← valuesOf scope args
    return first (← callAt call line slot callee.origin f values)
  | .send subject method args nameLine line slot => do
    let s ← value scope subject
    setLine nameLine
    let f ← ScriptM.index call subject.origin s (.str method)
    let values ← valuesOf scope args
    return first (← callAt call line slot ⟨"method", Utf8.decode method⟩ f (s :: values))
  | .function routine => closure scope routine
  | .unary op operand line => do
    let v ← value scope operand
    setLine line
    ScriptM.unary call op v operand.origin
  | .binary op left right line => do
    match op with
    | .and => do
      let a ← value scope left
      if a.truthy then value scope right else return a
    | .or => do
      let a ← value scope left
      if a.truthy then return a else value scope right
    | .concat => do
      let a ← value scope left
      let b ← value scope right
      setLine line
      ScriptM.concat call a b left.origin right.linkOrigin
    | op => do
      let a ← operandOf scope left
      let b ← value scope right
      setLine line
      ScriptM.binary call op (← read a) b left.origin right.origin
  | .paren inner => value scope inner
  | .table fields items entries => do
    let id ← newTable (.ofSize items entries)
    fill scope id 1 [] fields
    return .table id

/-- An operand of an operator: one of the function's own variables is read later. -/
def operandOf (scope : Scope) : Expr → ScriptM Operand
  | .variable (.own place name) => return .cell (scope.cellOf (.own place name))
  | e => return .value (← value scope e)

/-- The table of an index: a variable is read after the key. -/
def subjectOf (scope : Scope) : Expr → ScriptM Operand
  | .variable v => return .cell (scope.cellOf v)
  | e => return .value (← value scope e)

/-- The values of an expression: calls and `...` may have any number, all others have one. -/
def values (scope : Scope) : Expr → ScriptM (List Value)
  | .varargs => return scope.varargs
  | .call callee args line slot => do
    let f ← value scope callee
    let values ← valuesOf scope args
    callAt call line slot callee.origin f values
  | .send subject method args nameLine line slot => do
    let s ← value scope subject
    setLine nameLine
    let f ← ScriptM.index call subject.origin s (.str method)
    let values ← valuesOf scope args
    callAt call line slot ⟨"method", Utf8.decode method⟩ f (s :: values)
  | e => return [← value scope e]

/-- The values of expressions, of which only the last may have more than one. -/
def valuesOf (scope : Scope) : List Expr → ScriptM (List Value)
  | [] => return []
  | [last] => values scope last
  | e :: rest => do
    let v ← value scope e
    return v :: (← valuesOf scope rest)

/--
Fills a new table with the fields of its expression.  Items wait, the last one first, until there
is a batch of them.
-/
def fill (scope : Scope) (id : TableId) (next : Nat) (waiting : List Value) :
    List TableField → ScriptM Unit
  | [] => setItems id next waiting.reverse
  | [.item e] => do
    let last ← values scope e
    setItems id next (waiting.reverse ++ last)
  | .item e :: rest => do
    let waiting := (← value scope e) :: waiting
    if waiting.length = Grammar.itemBatch then
      setItems id next waiting.reverse
      fill scope id (next + waiting.length) [] rest
    else fill scope id next waiting rest
  | .entry key e line :: rest => do
    let k ← operandOf scope key
    let v ← value scope e
    setLine line
    rawStore id (← read k) v
    fill scope id next waiting rest

end

/-- The place that an expression names. -/
def placeOf (scope : Scope) (e : Expr) : ScriptM Place := do
  match e with
  | .variable v => return .cell (scope.cellOf v)
  | .index subject key _ =>
    let s ← subjectOf call scope subject
    let k ← operandOf call scope key
    let s ← match subject, key with
      | .variable (.outer _ _), .text bytes =>
        if bytes.size ≤ Grammar.Piece.nameLimit then pure s else settle s
      | .variable (.outer _ _), _ => settle s
      | _, _ => pure s
    return .entry s k subject.origin
  | _ => return .entry (.value .nil) (.value .nil) {}

/-- The places that expressions name, in their order; a variable that is one of them is kept. -/
def placesOf (scope : Scope) : List Expr → List Place → ScriptM (List Place)
  | [], places => return places
  | e :: rest, places => do
    let place ← placeOf call scope e
    let places ← match place with
      | .cell index => places.mapM (keep index)
      | _ => pure places
    placesOf scope rest (places ++ [place])

mutual

/-- Runs the statements of a block. -/
def run (scope : Scope) : List Stmt → ScriptM Ending
  | [] => return .done scope
  | s :: rest => do
    match ← exec scope s with
    | .done inner => run inner rest
    | ending => return ending

/-- Runs a statement; the scope it ends in holds for the statements after it. -/
def exec (scope : Scope) : Stmt → ScriptM Ending
  | .assign [target] [e] line => do
    let place ← placeOf call scope target
    let v ← value call scope e
    setLine line
    assign call place v
    return .done scope
  | .assign targets sources line => do
    let places ← placesOf call scope targets []
    let values ← valuesOf call scope sources
    setLine line
    assignAll call places values
    return .done scope
  | .locals count sources => do
    let values ← valuesOf call scope sources
    return .done (← bind scope count values)
  | .localFunction routine => do
    let index ← newCell .nil
    let inner := { scope with locals := index :: scope.locals }
    setCell index (← closure inner routine)
    return .done inner
  | .call e => do
    discard (values call scope e)
    return .done scope
  | .block body => do
    match ← run scope body with
    | .done _ => return .done scope
    | ending => return ending
  | .loop condition body => do
    let ending ← turnWhile (value call scope condition) (run scope body) turnLimit
    return ending.getD (.done scope)
  | .loopUntil body condition => do
    let test (inner : Scope) := value call inner condition
    let ending ← turnUntil (run scope body) test turnLimit
    return ending.getD (.done scope)
  | .branch condition body otherwise => do
    let v ← value call scope condition
    let ending ← if v.truthy then run scope body else run scope otherwise
    match ending with
    | .done _ => return .done scope
    | ending => return ending
  | .countFor start limit step body line => do
    let a ← value call scope start
    let b ← value call scope limit
    let c ← match step with
      | some e => value call scope e
      | none => pure (.int 1)
    setLine line
    let turn (v : Value) : ScriptM Ending := do run (← bind scope 1 [v]) body
    return (← countLoop a b c turn).getD (.done scope)
  | .eachFor count sources body line checkLine => do
    let values ← valuesOf call scope sources
    setLine checkLine
    checkClosable (first (values.drop 3))
    let turn (values : List Value) : ScriptM Ending := do run (← bind scope count values) body
    let control := first (values.drop 2)
    let ending ← eachLoop call line (first values) (first values.tail) turn turnLimit control
    return ending.getD (.done scope)
  | .result [e] => do return .returned (← values call scope e)
  | .result sources => do return .returned (← valuesOf call scope sources)
  | .handOver (.call callee args line slot) => do
    let f ← value call scope callee
    let values ← valuesOf call scope args
    handOver call line slot callee.origin f values
  | .handOver (.send subject method args nameLine line slot) => do
    let s ← value call scope subject
    setLine nameLine
    let f ← ScriptM.index call subject.origin s (.str method)
    let values ← valuesOf call scope args
    handOver call line slot ⟨"method", Utf8.decode method⟩ f (s :: values)
  | .handOver e => do return .returned (← values call scope e)
  | .leave => return .left

end

/-- Runs the body of a function on arguments. -/
def apply (routine : Routine) (outer : Array Nat) (chunk : ByteArray) (args : List Value) :
    ScriptM Completion := do
  let count := routine.parameters
  let varargs := if routine.variadic then args.drop count else []
  let scope ← bind { outer, varargs, chunk } count args
  match ← run call scope routine.body with
  | .returned values => return .values values
  | .handedOver f args => return .call f args
  | _ => return .values []

end

end Evaluation

end ScriptHost
