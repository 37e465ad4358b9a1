import ScriptHost.Boundary.Protection
import ScriptHost.Host.Convert

/-!
# Values across the boundary

A host value becomes a script value and back.  Structures and pointers become proxies: tables that
the machine keeps a handle for, so that nothing a script writes into a table makes it a proxy or
takes its identity away.  Integral numbers are integers on both sides.
-/

namespace ScriptHost

namespace Value

/-- A number as scripts and hosts exchange it: integral ones that fit are integers. -/
def ofBinary64 (x : Binary64) : Value :=
  match x.toInt64? with
  | some i => .int i
  | none => .float x

end Value

abbrev CrossingM := MachineM CrossingError

namespace Crossing

open MachineM

/-- Readies the machine for proxies. -/
def enable {ε : Type} : MachineM ε Unit :=
  modify fun s => { s with handles := some (s.handles.getD .empty) }

/-- Makes a table a proxy. -/
def markProxy (id : TableId) (handle : Handle) : CrossingM Unit :=
  modify fun s =>
    let (slot, handles) := (s.handles.getD .empty).insert handle
    { s with handles := some handles, proxies := (id, slot) :: s.proxies }

end Crossing

namespace Machine

/-- The handle of a table that is a proxy. -/
def handle? (s : Machine) (id : TableId) : Option Handle := do
  let slot ← s.proxies.lookup id
  (← s.handles).get? slot

/-- The host value behind a proxy. -/
def unwrap? (s : Machine) (id : TableId) : Option HostValue := (s.handle? id).map (·.value)

/-- The full name of the type that a proxy shows; the nil pointer shows none. -/
def proxyType? (s : Machine) (id : TableId) : Option String := do
  let handle ← s.handle? id
  return (← handle.shape).fullName

end Machine

namespace Crossing

open MachineM

section

variable (object : ObjectId → CrossingM Value)

/-- A pointer's proxy, which has no fields. -/
def proxyOfPointer (target : Option ObjectId) : CrossingM TableId := do
  let id ← newTable
  let s ← get
  markProxy id ⟨.ptr target, target.map fun o => (s.objects.get o).shape⟩
  return id

/-- The text of a host value, for a key. -/
def textKey (v : HostValue) : CrossingM String := onObjects .host (HostM.textOf v)

/-- The key for a host value: scalars keep their type, others become their text. -/
def key (v : HostValue) : CrossingM Value := do
  match v with
  | .nil | .ptr none => fail (.invalidKey "nil")
  | .bool b => return .bool b
  | .int i => return .int i
  | .float x => if x.isNaN then fail (.invalidKey "NaN") else return .ofBinary64 x
  | .str s => return .text s
  | v => return .text (← textKey v)

mutual

/-- The script value of a host value, given those of structures. -/
def value : HostValue → CrossingM Value
  | .nil => return .nil
  | .bool b => return .bool b
  | .int i => return .int i
  | .float x => return .ofBinary64 x
  | .str s => return .text s
  | .list items => do
    let id ← newTable (.ofSize items.length)
    putItems id 1 items
    return .table id
  | .map pairs => do
    let id ← newTable
    putPairs id pairs
    return .table id
  | .struct id => object id
  | .ptr target => do return .table (← proxyOfPointer target)
  | .foreign kind => fail (.unsupported kind)

def putItems (id : TableId) (index : Nat) : List HostValue → CrossingM Unit
  | [] => pure ()
  | item :: rest => do
    rawSet id (.int (.ofNat index)) (← value item)
    putItems id (index + 1) rest

/-- Later pairs replace earlier ones with the same key. -/
def putPairs (id : TableId) : List (HostValue × HostValue) → CrossingM Unit
  | [] => pure ()
  | (k, item) :: rest => do
    let k ← key k
    rawSet id k (← value item)
    putPairs id rest

end

mutual

/-- The script value of a stored value, the same as that of the host value it is read as. -/
def datum : Datum → CrossingM Value
  | .bool b => return .bool b
  | .int i => return .int i
  | .size n => return .int n.toInt64
  | .float x => return .ofBinary64 x
  | .text s => return .text s
  | .object id => do return .table (← proxyOfPointer (some id))
  | .any v => value object v
  | .record shape fields => do
    let copy ← onObjects .host (HostM.newObject shape fields)
    let id ← newTable
    putFields id shape.fields fields
    markProxy id ⟨.struct copy, some shape⟩
    return .table id
  | .absent => return .nil
  | .present content => datum content
  | .list items => do
    let id ← newTable (.ofSize items.length)
    putData id 1 items
    return .table id
  | .map entries => do
    let id ← newTable
    putEntries id entries
    return .table id

def putData (id : TableId) (index : Nat) : List Datum → CrossingM Unit
  | [] => pure ()
  | item :: rest => do
    rawSet id (.int (.ofNat index)) (← datum item)
    putData id (index + 1) rest

def putEntries (id : TableId) : List (String × Datum) → CrossingM Unit
  | [] => pure ()
  | (k, item) :: rest => do
    rawSet id (.text k) (← datum item)
    putEntries id rest

/-- The public ones of the fields, each under its name. -/
def putFields (id : TableId) (declared : List Field) : List Datum → CrossingM Unit
  | [] => pure ()
  | item :: rest =>
    match declared with
    | [] => pure ()
    | field :: declared => do
      if field.isPublic then rawSet id (.text field.name) (← datum item)
      putFields id declared rest

end

end

/-- Sets the public fields of an object in a table. -/
def putObject (depth : ObjectId → CrossingM Value) (id : TableId) (o : ObjectId) :
    CrossingM Unit := do
  let i ← onObjects .host (HostM.readable o)
  putFields depth id i.shape.fields i.fields

/--
A structure's proxy, which has its public fields as they are now.  A structure inside a structure at
the given depth was passed before, so its proxy would never end.
-/
def proxyOfStruct : Nat → ObjectId → CrossingM Value
  | 0, _ => throw .endless
  | depth + 1, o => do
    let id ← newTable
    putObject (proxyOfStruct depth) id o
    markProxy id ⟨.struct o, some ((← get).objects.get o).shape⟩
    return .table id

/-- Structures lie inside each other no deeper than there are objects. -/
def structure? (o : ObjectId) : CrossingM Value := do
  proxyOfStruct (← get).objects.size o

def toScript (v : HostValue) : CrossingM Value := value structure? v

/-- A table of the public fields of an object. -/
def fieldTable (o : ObjectId) : CrossingM TableId := do
  let id ← newTable
  putObject structure? id o
  return id

/-- Tables may lie this deep inside each other on their way to the host. -/
def depthLimit : Nat := 128

/-- An entry of a table, as the host takes it. -/
def receiveEntry (entry : Value × Value) : CrossingM (Value × Value) := do
  let k ← ScriptM.receive entry.1
  return (k, ← ScriptM.receive entry.2)

def entriesOf (id : TableId) : CrossingM (List (Value × Value)) := do
  (← table id).live.mapM receiveEntry

def indexOf? : Value × Value → Option (Int × Value)
  | (.int i, v) => some (i.toInt, v)
  | _ => none

/-- The values of entries under integers, in the order of those; `none` if another key is there. -/
def sequence? (entries : List (Value × Value)) : Option (List Value) := do
  let indexed ← entries.mapM indexOf?
  return (indexed.mergeSort fun a b => a.1 ≤ b.1).map (·.2)

/-- The host's entry under the text of a key, given the host values of script values. -/
def namedEntry (convert : Value → CrossingM HostValue) (entry : Value × Value) :
    CrossingM (HostValue × HostValue) := do
  let k ← textKey (← convert entry.1)
  return (.str k, ← convert entry.2)

/-- The host value of a table with the given entries. -/
def contents (convert : Value → CrossingM HostValue) (entries : List (Value × Value)) :
    CrossingM HostValue := do
  match sequence? entries with
  | some items => return .list (← items.mapM convert)
  | none => return .map (← entries.mapM (namedEntry convert))

/-- The host value of a script value inside tables that are not finished yet. -/
def hostValue : Nat → List TableId → Value → CrossingM HostValue
  | _, _, .nil => return .nil
  | _, _, .bool b => return .bool b
  | _, _, .int i => return .int i
  | _, _, .float x =>
    match x.toInt64? with
    | some i => return .int i
    | none => return .float x
  | _, _, .str bytes => return .str (Utf8.decode bytes)
  | depth, passed, .table id => do
    match (← get).unwrap? id with
    | some v => return v
    | none =>
      if id ∈ passed then fail .cyclic
      else
        match depth with
        | 0 => fail (.tooDeep depthLimit)
        | depth + 1 => contents (hostValue depth (id :: passed)) (← entriesOf id)
  | _, _, v => return .str (v.hostType ++ ": " ++ v.addressText)

def toHost (v : Value) : CrossingM HostValue := hostValue depthLimit [] v

/-- A value as a field of a kind takes it; integers widen to numbers. -/
def fitted? : FieldKind → HostValue → Option HostValue
  | .str, .str s => some (.str s)
  | .int, .int i => some (.int i)
  | .float, .float x => some (.float x)
  | .float, .int i => some (.float (.ofInt64 i))
  | .bool, .bool b => some (.bool b)
  | _, _ => none

/-- Assigns one entry of a table to the field of its name. -/
def assignEntry (target : ObjectId) (policy : AssignPolicy) (k v : Value) : CrossingM Unit := do
  match k with
  | .str bytes =>
    let name := Utf8.decode bytes
    match ((← get).objects.get target).shape.publicField? name with
    | none => pure ()
    | some field =>
      if !field.kind.isAssignable then fail (.unsupportedField name field.kind.name)
      let found ← toHost v
      match fitted? field.kind found with
      | some v => onObjects .host (HostM.setField target name v)
      | none =>
        match policy with
        | .lenient => pure ()
        | .strict => fail (.fieldMismatch name field.kind.name found.kind)
  | _ => pure ()

/-- Assigns the entries of a table to the public fields of their names, in order. -/
def assign (target : ObjectId) (id : TableId) (policy : AssignPolicy) : CrossingM Unit := do
  (← table id).live.forM fun entry => do
    let (k, v) ← receiveEntry entry
    assignEntry target policy k v

end Crossing

end ScriptHost
