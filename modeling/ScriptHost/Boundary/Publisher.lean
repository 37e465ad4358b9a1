import ScriptHost.Boundary.Published
import ScriptHost.Host.Registry

/-!
# Publishers

A publisher gives scripts the items of a registry: functions, objects with their methods, classes,
and namespaces that hold all items of a package.
-/

namespace ScriptHost

/-- Why something could not be published. -/
inductive PublishError where
  | notPointer (name kind : String)
  | nilObject (name : String)
  | crossing (e : CrossingError)
  | script (e : ScriptError)

def PublishError.message : PublishError → String
  | .notPointer name kind => s!"object must be pointer: {name} is {kind}"
  | .nilObject name => s!"object {name} is a nil pointer"
  | .crossing e => e.message
  | .script e => e.message

abbrev PublishM := MachineM PublishError

structure Publisher where
  registry : Registry
  /-- The classes of the host's objects, registered or not. -/
  classes : List HostClass
  policy : AssignPolicy := .lenient
  /-- How values are called. -/
  call : Caller

namespace Publisher

open MachineM

variable (b : Publisher)

/-- The methods of objects of a shape. -/
def methodsOf (shape : Shape) : List HostMethod :=
  ((b.classes.find? (·.shape.Is shape)).map (·.methods)).getD []

def set (id : TableId) (name : String) (v : Value) : PublishM Unit :=
  mapError .script (ScriptM.storeFor b.call (.table id) (.text name) v)

def setGlobal (name : String) (v : Value) : PublishM Unit :=
  mapError .script (ScriptM.setGlobalFor b.call name v)

/-- Publishes a native function in a namespace, or globally if there is none. -/
def publishNative (home : Option TableId) (name : String) (n : Native) : PublishM Value := do
  let f ← newNative n
  match home with
  | some id => b.set id name f
  | none => b.setGlobal name f
  return f

/-- Publishes a free function of the host. -/
def publishFunction (home : Option TableId) (name : String)
    (call : List HostValue → HostM (List HostValue)) : PublishM Value :=
  b.publishNative home name (.host call)

/-- The functions of a class with their names. -/
def classNatives (info : HostClass) : List (String × Native) :=
  [("get", .classGet), ("set", .classSet b.policy), ("new", .classNew info)]
    ++ info.methods.map fun m => (m.name, .classMethod m)

def setNatives (id : TableId) : List (String × Native) → PublishM Unit
  | [] => pure ()
  | (name, n) :: rest => do
    discard (b.publishNative (some id) name n)
    setNatives id rest

/-- The table of a class, which is its own `__index`. -/
def publishClass (info : HostClass) : PublishM TableId := do
  let id ← newTable
  b.set id "__index" (.table id)
  b.setNatives id (b.classNatives info)
  return id

def publishEntry (home : TableId) : Entry → PublishM Unit
  | .function info => discard (b.publishFunction (some home) info.name info.call)
  | .type info => do b.set home info.shape.name (.table (← b.publishClass info))

def publishEntries (home : TableId) : List Entry → PublishM Unit
  | [] => pure ()
  | entry :: rest => do
    b.publishEntry home entry
    publishEntries home rest

/-- Publishes all items of a package and tells their number. -/
def publishPackage (home : TableId) (package : String) : PublishM Nat := do
  let entries := b.registry.package package
  b.publishEntries home entries
  return entries.length

/-- Publishes a pointer as a global, with its methods and the items of a package. -/
def publishObjectWith (name : String) (v : HostValue) (package : String) : PublishM TableId := do
  match v with
  | .ptr (some o) =>
    let id ← mapError .crossing (Crossing.proxyOfPointer (some o))
    let shape := ((← get).objects.get o).shape
    let methods := (b.methodsOf shape).map fun m => (m.name, Native.bound o m)
    b.setNatives id methods
    discard (b.publishPackage id package)
    b.setGlobal name (.table id)
    return id
  | .ptr none => fail (.nilObject name)
  | v => fail (.notPointer name v.kind)

/-- Publishes a pointer as a global, with its methods and the items of its object's package. -/
def publishObject (name : String) (v : HostValue) : PublishM TableId := do
  let objects := (← get).objects
  let package := match v with
    | .ptr (some o) => (objects.get o).shape.package
    | _ => ""
  b.publishObjectWith name v package

/-- Makes an empty table a global. -/
def publishEmpty (name : String) : PublishM TableId := do
  let id ← newTable
  b.setGlobal name (.table id)
  return id

/-- Makes a table with the items of a package a global. -/
def publishPackageAs (name package : String) : PublishM TableId := do
  let id ← newTable
  discard (b.publishPackage id package)
  b.setGlobal name (.table id)
  return id

/-- Publishes one item by its full name and tells whether there is one. -/
def publishNamed (home : TableId) (fullName : String) : PublishM Bool := do
  match b.registry.get? fullName with
  | some entry =>
    b.publishEntry home entry
    return true
  | none => return false

end Publisher

end ScriptHost
