import ScriptHost.Host.Value
import ScriptHost.Host.Shape

/-!
# Host objects

Objects live in a heap and are shared by identity.  Each one can be held by readers or by one
writer; what needs it while a writer holds it fails instead of waiting.
-/

namespace ScriptHost

/-- Why a host function or method failed. -/
inductive HostError where
  | conversion (expected found : String)
  /-- Positions count from one. -/
  | missingArgument (position : Nat)
  | receiver (type : String)
  | busy (type : String)
  | noField (type field : String)
  | custom (message : String)
deriving DecidableEq, Repr

def HostError.message : HostError → String
  | .conversion expected found => s!"expected {expected}, found {found}"
  | .missingArgument position => s!"missing argument #{position}"
  | .receiver type => s!"receiver is not a {type}"
  | .busy type => s!"{type} is already in use"
  | .noField type field => s!"{type} has no field {field}"
  | .custom message => message

/-- How a computation stops without a result. -/
inductive Stop (ε : Type) where
  | error (e : ε)
  /-- The host program itself failed. -/
  | panic (text : String)
  /-- Nothing comes back: the computation would never end, or the whole program dies of it. -/
  | endless
deriving Inhabited

def Stop.map {ε ε' : Type} (f : ε → ε') : Stop ε → Stop ε'
  | .error e => .error (f e)
  | .panic text => .panic text
  | .endless => .endless

/-- A stored value. -/
inductive Datum where
  | bool (b : Bool)
  | int (i : Int64)
  | size (n : UInt64)
  | float (x : Binary64)
  | text (s : String)
  | object (object : ObjectId)
  | any (value : HostValue)
  | record (shape : Shape) (fields : List Datum)
  | absent
  | present (content : Datum)
  | list (items : List Datum)
  | map (entries : List (String × Datum))
deriving Inhabited

/-- Who holds an object at the moment. -/
inductive Hold where
  | free
  | shared (readers : Nat)
  | exclusive
deriving DecidableEq, Inhabited, Repr

/-- An object: its shape, one stored value for each field of the shape, and its hold. -/
structure Instance where
  shape : Shape
  fields : List Datum
  hold : Hold := .free
deriving Inhabited

namespace Instance

/-- The stored value of a field. -/
def stored? (i : Instance) (name : String) : Option Datum :=
  ((i.shape.fields.zip i.fields).find? fun (field, _) => field.name = name).map (·.2)

/-- The public fields with their stored values, in order of declaration. -/
def publicFields (i : Instance) : List (String × Datum) :=
  (i.shape.fields.zip i.fields).filterMap fun (field, datum) =>
    if field.isPublic then some (field.name, datum) else none

/-- The stored value of the first field of a name replaced. -/
def setStored (name : String) (datum : Datum) : List Field → List Datum → List Datum
  | field :: fields, old :: rest =>
    if field.name = name then datum :: rest else old :: setStored name datum fields rest
  | _, data => data

end Instance

/-- The heap of host objects. -/
structure Objects where
  instances : Array Instance := #[]
deriving Inhabited

/-- A computation of the host on its objects. -/
abbrev HostM := ExceptT (Stop HostError) (StateM Objects)

namespace Objects

def get (objects : Objects) (id : ObjectId) : Instance := objects.instances[id.index]?.getD default

def set (objects : Objects) (id : ObjectId) (i : Instance) : Objects :=
  ⟨objects.instances.setIfInBounds id.index i⟩

def size (objects : Objects) : Nat := objects.instances.size

def setHold (objects : Objects) (id : ObjectId) (hold : Hold) : Objects :=
  objects.set id { objects.get id with hold }

/-- Adds an object; its identity is new. -/
def add (objects : Objects) (i : Instance) : ObjectId × Objects :=
  (⟨objects.instances.size⟩, ⟨objects.instances.push i⟩)

end Objects

namespace HostM

def fail {α : Type} (e : HostError) : HostM α := throw (.error e)

def instanceOf (id : ObjectId) : HostM Instance := do return (← get).get id

def newObject (shape : Shape) (fields : List Datum) : HostM ObjectId :=
  modifyGet fun objects => objects.add { shape, fields }

/-- Fails while a writer holds the object. -/
def readable (id : ObjectId) : HostM Instance := do
  let i ← instanceOf id
  if i.hold = .exclusive then fail (.busy i.shape.name) else return i

/-- Fails while anybody holds the object. -/
def writable (id : ObjectId) : HostM Instance := do
  let i ← instanceOf id
  if i.hold = .free then return i else fail (.busy i.shape.name)

/-- Runs a computation while holding an object, and lets go however it ends. -/
def holding {α : Type} (id : ObjectId) (hold : Hold) (run : HostM α) : HostM α := ExceptT.mk do
  let before := ((← get).get id).hold
  modify (·.setHold id hold)
  let result ← ExceptT.run run
  modify (·.setHold id before)
  return result

def setFields (id : ObjectId) (fields : List Datum) : HostM Unit :=
  modify fun objects => objects.set id { objects.get id with fields }

end HostM

end ScriptHost
