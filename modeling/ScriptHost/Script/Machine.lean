import ScriptHost.Boundary.Arena
import ScriptHost.Fault
import ScriptHost.Host.Class
import ScriptHost.Module.Index
import ScriptHost.Script.Grammar
import ScriptHost.Script.Table

/-!
# The machine

All that a run of scripts can change: tables, functions, variables, caught failures, the calls in
progress, and what the host attached: its objects, the proxies that stand for them, the resolvers of
modules and the output.
-/

namespace ScriptHost

/-- The functions that every interpreter has. -/
inductive Standard where
  | assert
  | error
  | getMetatable
  | ipairs
  | ipairsNext
  | next
  | pairs
  | pcall
  | print
  | rawEqual
  | rawGet
  | rawLen
  | rawSet
  | require
  | select
  | setMetatable
  | toString
  | type
  | mathType
  | stringFind
  | stringUpper
  | tableConcat
  | tableInsert
  | tableSort
  | coroutineCreate
  /-- An operator on strings that hold numerals. -/
  | onTexts (op : BinaryOp)
  | negateText
  /-- A function that is known by its name only. -/
  | other (name : String)
deriving DecidableEq, Repr

/-- The functions of the machine that are no script text. -/
inductive Native where
  | standard (f : Standard)
  /-- A free function of the host. -/
  | host (call : List HostValue → HostM (List HostValue))
  /-- A method with its receiver. -/
  | bound (receiver : ObjectId) (method : HostMethod)
  | classGet
  | classSet (policy : AssignPolicy)
  | classNew (info : HostClass)
  | classMethod (method : HostMethod)
  /-- Prints to the output that the host reads. -/
  | printer
  | logger
  /-- Finds modules through a resolver. -/
  | resolve (resolver : Nat)
  /-- Stands for a function of another interpreter. -/
  | placeholder (path : String)

inductive Function where
  /-- A routine with the cells of the variables that it uses of its surroundings. -/
  | closure (routine : Routine) (outer : Array Nat) (chunk : ByteArray)
  | native (n : Native)

instance : Inhabited Function := ⟨.native (.standard .type)⟩

/-- How a call is made at its place. -/
structure CallSite where
  /-- What kind of name the callee has there, for messages; empty if it has none. -/
  kind : String := ""
  name : String := ""
  /-- The slot of the callee in the frame of a script function that calls it by itself. -/
  slot : Option Nat := none
deriving Inhabited

/-- A call in progress. -/
structure Frame where
  /-- The chunk of a script function. -/
  chunk : Option ByteArray
  /-- The line that a script function has reached. -/
  line : Nat := 0
  site : CallSite
  callee : Value
  /-- Where the frame starts on the stack, where its slots do, and where calls from outside go. -/
  start : Nat
  base : Nat
  top : Nat
deriving Inhabited

/-- What the host registered for the name of a module. -/
inductive Loader where
  /-- Copies the module from a second interpreter. -/
  | bridge (settings : ModuleSettings)
  | script (function : Value)

/-- Finds modules and keeps track of the loads in progress. -/
structure Resolver where
  index : ModuleIndex := {}
  preloads : List (String × Loader) := []
  loading : List String := []
  /-- The cache that the resolver uses since it was installed. -/
  loaded : Option TableId := none
deriving Inhabited

/-- A proxy's host value with the type that it shows. -/
structure Handle where
  value : HostValue
  shape : Option Shape
deriving Inhabited

structure Machine where
  tables : Array Table := #[]
  functions : Array Function := #[]
  /-- The values of local variables. -/
  cells : Array Value := #[]
  faults : Array Fault := #[]
  /-- The functions that threads would run. -/
  threads : Array Value := #[]
  userdata : Nat := 0
  globals : TableId := ⟨0⟩
  /-- The cache of modules that the interpreter itself keeps. -/
  loaded : TableId := ⟨0⟩
  /-- The table with the search paths of the interpreter's own `require`. -/
  package : TableId := ⟨0⟩
  /-- The metatable of all strings. -/
  stringMeta : Option TableId := none
  /-- The metatable of the standard streams, which are the first userdata. -/
  streamMeta : Option TableId := none
  /-- The functions that traversals of tables and of lists go on with. -/
  nextFunction : Value := .nil
  nextItemFunction : Value := .nil
  frames : List Frame := []
  /-- How deep calls lie inside each other that script functions do not make by themselves. -/
  nesting : Nat := 0
  objects : Objects := {}
  /-- The handles of proxies; missing until the machine is prepared for them. -/
  handles : Option (Arena Handle) := none
  /-- The tables that are proxies, with their slots. -/
  proxies : List (TableId × Nat) := []
  resolvers : Array Resolver := #[]
  /-- The resolver behind the global `require`. -/
  installed : Option Nat := none
  output : String := ""
  events : Array (LogLevel × String) := #[]
  files : Files := {}
  environment : Variables := []
  /-- The names of the script modules that were run, in the order in which the loader logs them. -/
  loads : Array String := #[]
deriving Inhabited

abbrev MachineM (ε : Type) := ExceptT (Stop ε) (StateM Machine)

/-- A computation of scripts, which raises script values. -/
abbrev ScriptM := MachineM Value

/-- How values are called. -/
abbrev Caller := CallSite → Value → List Value → ScriptM (List Value)

namespace MachineM

variable {ε ε' α : Type}

def fail (e : ε) : MachineM ε α := throw (.error e)

/-- The outcome of a computation, errors included. -/
def attempt (m : MachineM ε α) : MachineM ε' (Except ε α) := ExceptT.mk do
  match ← ExceptT.run m with
  | .ok a => return .ok (.ok a)
  | .error (.error e) => return .ok (.error e)
  | .error (.panic text) => return .error (.panic text)
  | .error .endless => return .error .endless

/-- Changes what a computation fails with. -/
def mapError (f : ε → ε') (m : MachineM ε α) : MachineM ε' α := ExceptT.mk do
  match ← ExceptT.run m with
  | .ok a => return .ok a
  | .error stop => return .error (stop.map f)

/-- Runs something after a computation, however that ends. -/
def andThen (m : MachineM ε α) (after : StateM Machine Unit) : MachineM ε α := ExceptT.mk do
  let result ← ExceptT.run m
  after
  return result

/--
What a computation and the clearing up after it come to.  Clearing up has no errors of its own, but
a panic of it takes the place of the result, and of two panics the program dies.
-/
def outcome : Except (Stop ε) α → Except (Stop Empty) Unit → Except (Stop ε) α
  | result, .ok () => result
  | .error (.panic _), .error (.panic _) => .error .endless
  | _, .error (.panic text) => .error (.panic text)
  | _, .error .endless => .error .endless

/-- Clears up after a computation, in whatever way that comes back. -/
def ensuring (m : MachineM ε α) (after : MachineM Empty Unit) : MachineM ε α := ExceptT.mk do
  match ← ExceptT.run m with
  | .error .endless => return .error .endless
  | result => return outcome result (← ExceptT.run after)

def newTable (t : Table := .empty) : MachineM ε TableId :=
  modifyGet fun s => (⟨s.tables.size⟩, { s with tables := s.tables.push t })

def table (id : TableId) : MachineM ε Table := do return (← get).tables[id.index]?.getD default

def modifyTable (id : TableId) (f : Table → Table) : MachineM ε Unit :=
  modify fun s => { s with tables := s.tables.modify id.index f }

def rawGet (id : TableId) (key : Value) : MachineM ε Value := do
  let t ← table id
  if t.horizon < t.items.size then modifyTable id (·.touch key)
  return t.get key

def rawLength (id : TableId) : MachineM ε Nat := do
  let t ← table id
  let (length, horizon) := t.search
  if horizon ≠ t.horizon then modifyTable id fun t => { t with horizon }
  return length

def rawSet (id : TableId) (key value : Value) : MachineM ε Unit :=
  modifyTable id (·.set key value)

def newFunction (f : Function) : MachineM ε Value :=
  modifyGet fun s => (.function ⟨s.functions.size⟩, { s with functions := s.functions.push f })

def newNative (n : Native) : MachineM ε Value := newFunction (.native n)

def function (id : FunctionId) : MachineM ε Function := do
  return (← get).functions[id.index]?.getD default

def newCell (v : Value) : MachineM ε Nat :=
  modifyGet fun s => (s.cells.size, { s with cells := s.cells.push v })

def cell (index : Nat) : MachineM ε Value := do return (← get).cells[index]?.getD .nil

def setCell (index : Nat) (v : Value) : MachineM ε Unit :=
  modify fun s => { s with cells := s.cells.setIfInBounds index v }

def newFault (f : Fault) : MachineM ε Value :=
  modifyGet fun s => (.fault s.faults.size, { s with faults := s.faults.push f })

def fault (index : Nat) : MachineM ε Fault := do return (← get).faults[index]?.getD default

def newThread (f : Value) : MachineM ε Value :=
  modifyGet fun s => (.thread s.threads.size, { s with threads := s.threads.push f })

def newUserdata : MachineM ε Value :=
  modifyGet fun s => (.userdata s.userdata, { s with userdata := s.userdata + 1 })

/-- Runs a computation on host objects. -/
def onObjects (f : HostError → ε) (m : HostM α) : MachineM ε α := ExceptT.mk do
  let (result, objects) := (ExceptT.run m).run (← get).objects
  modify fun s => { s with objects }
  match result with
  | .ok a => return .ok a
  | .error stop => return .error (stop.map f)

/-- Runs a computation that only reads host objects and cannot fail. -/
def readObjects (m : StateM Objects α) : MachineM ε α := do
  let (a, objects) := m.run (← get).objects
  modify fun s => { s with objects }
  return a

end MachineM

namespace ScriptM

open MachineM

variable {α : Type}

/-- Raises a failure of the host as a value that scripts can catch. -/
def raiseError (e : ScriptError) : ScriptM α := do MachineM.fail (← newFault (.error e))

/-- A computation of the host inside a script: its errors and panics are raised as values. -/
def ofHost (m : MachineM ScriptError α) : ScriptM α := ExceptT.mk do
  match ← ExceptT.run m with
  | .ok a => return .ok a
  | .error (.error e) => ExceptT.run (raiseError e)
  | .error (.panic text) =>
    ExceptT.run do MachineM.fail (← newFault (.panic (some text)))
  | .error .endless => return .error .endless

/-- The position of a call in progress, as messages begin with it. -/
def position (level : Nat) : ScriptM ByteArray := do
  match (← get).frames[level]? with
  | some { chunk := some chunk, line, .. } =>
    return chunk ++ (":" ++ toString line ++ ": ").toByteArray
  | _ => return .empty

/-- Raises a message with the position of a call in progress in front. -/
def raiseAt (level : Nat) (message : String) : ScriptM α := do
  MachineM.fail (.str ((← position level) ++ message.toByteArray))

/-- Raises a message at the place that the innermost call has reached. -/
def raise (message : String) : ScriptM α := raiseAt 0 message

/-- Notes the line that the innermost script function has reached. -/
def setLine (line : Nat) : ScriptM Unit :=
  modify fun s =>
    match s.frames with
    | frame :: rest => { s with frames := { frame with line := line } :: rest }
    | [] => s

/-- Runs a call in a frame of its own. -/
def inFrame {β : Type} (frame : Frame) (m : ScriptM β) : ScriptM β := do
  let before := (← get).frames
  modify fun s => { s with frames := frame :: before }
  MachineM.andThen m (modify fun s => { s with frames := before })

/-- Calls that script functions do not make by themselves lie less deep than this. -/
def nestingLimit : Nat := 200

/-- Runs a call that no script function makes by itself. -/
def nested {β : Type} (m : ScriptM β) : ScriptM β := do
  let depth := (← get).nesting + 1
  if nestingLimit ≤ depth then raise "C stack overflow"
  modify fun s => { s with nesting := depth }
  MachineM.andThen m (modify fun s => { s with nesting := depth - 1 })

/-- The stack has this many slots. -/
def stackLimit : Nat := 1000000

/-- The slots that a function that is no script text may take besides its arguments. -/
def nativeSlots : Nat := 20

/-- Complains if a call that starts at some place of the stack would outgrow it. -/
def checkRoom (start arguments slots : Nat) : ScriptM Unit := do
  if stackLimit < start + 1 + arguments + slots then raise "stack overflow"

/-- Where a call starts on the stack. -/
def startOf (site : CallSite) : ScriptM Nat := do
  match (← get).frames, site.slot with
  | [], _ => return 0
  | frame :: _, some slot => return frame.base + slot
  | frame :: _, none => return frame.top

end ScriptM

end ScriptHost
