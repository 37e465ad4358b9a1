import ScriptHost.Boundary.Crossing

/-!
# Published host items

What scripts run when they call something of the host.  Arguments come over first, all of them,
then the host runs, then its results go back.  Methods count their arguments before any of this.
-/

namespace ScriptHost

namespace Published

open MachineM

abbrev BoundaryM := MachineM ScriptError

def crossed {α : Type} (m : CrossingM α) : BoundaryM α := mapError CrossingError.raised m

def argumentsToHost (args : List Value) : BoundaryM (List HostValue) :=
  crossed (args.mapM Crossing.toHost)

def resultsToScript (results : List HostValue) : BoundaryM (List Value) :=
  crossed (results.mapM Crossing.toScript)

/-- Runs a host computation on arguments of scripts. -/
def run (host : List HostValue → HostM (List HostValue)) (args : List Value) :
    BoundaryM (List Value) := do
  let args ← argumentsToHost args
  resultsToScript (← onObjects .host (host args))

def wrongCount {α : Type} (method : HostMethod) (got : Nat) : BoundaryM α :=
  fail (.runtime s!"method {method.name} expects {method.arity} arguments, got {got}")

/-- Calls a method of a known receiver. -/
def bound (receiver : ObjectId) (method : HostMethod) (args : List Value) :
    BoundaryM (List Value) := do
  if args.length ≠ method.arity then wrongCount method args.length
  else run (method.call receiver) args

/-- The object behind a proxy that stands as receiver. -/
def receiver (v : Option Value) : BoundaryM ObjectId := do
  let s ← get
  let found := match v with
    | some (.table id) => s.unwrap? id
    | _ => none
  match found with
  | some (.struct o) => return o
  | some (.ptr (some o)) => return o
  | _ => fail (.runtime "Invalid object")

/-- Calls a method of a receiver that comes first among the arguments. -/
def classMethod (method : HostMethod) (args : List Value) : BoundaryM (List Value) := do
  if args.length ≠ method.arity + 1 then wrongCount method (args.length - 1)
  else
    let o ← receiver args.head?
    run (method.call o) args.tail

def classGet (args : List Value) : BoundaryM (List Value) := do
  if args.length ≠ 1 then fail (.runtime "get expects exactly one argument")
  let o ← receiver args.head?
  return [.table (← crossed (Crossing.fieldTable o))]

def classSet (policy : AssignPolicy) (args : List Value) : BoundaryM (List Value) := do
  let o ← receiver args.head?
  match args.tail.head? with
  | some (.table id) =>
    crossed (Crossing.assign o id policy)
    return []
  | _ => fail (.runtime "set expects a table as argument")

/-- The values of a type that the host takes only functions of. -/
def expectFunction (v : Value) : BoundaryM Value := do
  match v with
  | .function _ => return v
  | v => fail (.conversion v.hostType "function" none)

def expectTable (v : Value) : BoundaryM TableId := do
  match v with
  | .table id => return id
  | v => fail (.conversion v.hostType "table" none)

/-- Makes an object of a class and, given a table, assigns it through the class. -/
def classNew (call : Caller) (info : HostClass) (args : List Value) : BoundaryM (List Value) := do
  if args.isEmpty ∨ args.length > 2 then
    fail (.runtime
      s!"new expects no arguments or exactly one table, got {args.length - 1}")
  match args.head? with
  | some (.table home) =>
    let o ← onObjects .host info.construct
    let id ← crossed (Crossing.proxyOfPointer (some o))
    modifyTable id fun t => { t with metatable := some home }
    match args.tail.head? with
    | none => pure ()
    | some init =>
      let set ← expectFunction (← ScriptM.indexFor call (.table home) (.text "set"))
      discard (ScriptM.runFor call set [.table id, init])
    return [.table id]
  | _ => fail (.runtime s!"new must be called as {info.shape.name}:new(...)")

/-- The texts of host values with a blank between each two. -/
def joined (values : List HostValue) : BoundaryM String := do
  return " ".intercalate (← onObjects .host (values.mapM HostM.textOf))

def addEvent (level : LogLevel) (text : String) : BoundaryM Unit :=
  modify fun s => { s with events := s.events.push (level, text) }

def printer (args : List Value) : BoundaryM (List Value) := do
  let line ← joined (← argumentsToHost args)
  addEvent .info line
  modify fun s => { s with output := s.output ++ line ++ "\n" }
  return []

/-- The level that a name asks for. -/
def levelNamed (name : String) : LogLevel :=
  (LogLevel.all.find? (·.directive = name.toLower)).getD .info

def logger (args : List Value) : BoundaryM (List Value) := do
  let args ← argumentsToHost args
  let level := levelNamed ((args.head?.bind (·.text?)).getD "info")
  addEvent level (← joined args.tail)
  return []

/-- A text that the host asks for; numbers are turned into theirs. -/
def textArgument (v : Value) : BoundaryM String := do
  match v with
  | .str bytes =>
    match Utf8.decode? bytes with
    | some text => return text
    | none => fail (.badArgument 1 (.conversion "string" "String" (some (Utf8.complaint bytes))))
  | v =>
    match v.numberText? with
    | some text => return text
    | none =>
      fail (.badArgument 1 (.conversion v.hostType "String" (some "expected string or number")))

def placeholder (path : String) : BoundaryM (List Value) :=
  fail (.runtime s!"native function {path} cannot be called from the embedded interpreter")

end Published

end ScriptHost
