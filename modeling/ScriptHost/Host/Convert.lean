import ScriptHost.Host.Render

/-!
# Conversions between host values and stored values

Reading a stored value copies it out: a record becomes a structure with an identity of its own.
Storing a host value checks its kind against the storage; integers widen to numbers, numbers never
become integers.
-/

namespace ScriptHost

namespace Datum

mutual

/-- The host value that a stored value is read as. -/
def read : Datum → StateM Objects HostValue
  | .bool b => pure (.bool b)
  | .int i => pure (.int i)
  | .size n => pure (.int n.toInt64)
  | .float x => pure (.float x)
  | .text s => pure (.str s)
  | .object id => pure (.ptr (some id))
  | .any v => pure v
  | .record shape fields => do
    return .struct (← modifyGet fun objects => objects.add { shape, fields })
  | .absent => pure .nil
  | .present content => content.read
  | .list items => do return .list (← readAll items)
  | .map entries => do return .map (← readEntries entries)

def readAll : List Datum → StateM Objects (List HostValue)
  | [] => pure []
  | item :: rest => do
    let v ← item.read
    return v :: (← readAll rest)

def readEntries : List (String × Datum) → StateM Objects (List (HostValue × HostValue))
  | [] => pure []
  | (key, item) :: rest => do
    let v ← item.read
    return (.str key, v) :: (← readEntries rest)

end

/-- Puts an entry in its place among ascending keys, replacing one with the same key. -/
def insertEntry {α : Type} (key : String) (item : α) : List (String × α) → List (String × α)
  | [] => [(key, item)]
  | (other, old) :: rest =>
    if key = other then (key, item) :: rest
    else if key < other then (key, item) :: (other, old) :: rest
    else (other, old) :: insertEntry key item rest

def ofSortedEntries {α : Type} (pairs : List (String × α)) : List (String × α) :=
  pairs.foldl (fun entries (key, item) => insertEntry key item entries) []

end Datum

namespace Storage

def refuse {α : Type} (expected : String) (found : HostValue) : HostM α :=
  HostM.fail (.conversion expected found.kind)

/-- The stored form of a host value. -/
def store : Storage → HostValue → HostM Datum
  | .bool, v =>
    match v with
    | .bool b => pure (.bool b)
    | other => refuse "bool" other
  | .int64, v =>
    match v with
    | .int i => pure (.int i)
    | other => refuse "int" other
  | .int32, v =>
    match v with
    | .int i =>
      if Int32.minValue.toInt ≤ i.toInt ∧ i.toInt ≤ Int32.maxValue.toInt then pure (.int i)
      else refuse "int32" v
    | other => refuse "int32" other
  | .size, v =>
    match v with
    | .int i => if 0 ≤ i.toInt then pure (.size i.toUInt64) else refuse "uint" v
    | other => refuse "uint" other
  | .float, v =>
    match v with
    | .float x => pure (.float x)
    | .int i => pure (.float (.ofInt64 i))
    | other => refuse "float" other
  | .single, v =>
    match v with
    | .float x => pure (.float x.toSingle)
    | .int i => pure (.float (Binary64.ofInt64 i).toSingle)
    | other => refuse "float" other
  | .text, v =>
    match v with
    | .str s => pure (.text s)
    | other => refuse "string" other
  | .object, v =>
    match v.object? with
    | some id => pure (.object id)
    | none => refuse "object" v
  | .any, v => pure (.any v)
  | .record shape, v =>
    match v.object? with
    | some id => do
      let i ← HostM.instanceOf id
      if i.hold ≠ .exclusive ∧ i.shape.Is shape then return .record shape i.fields
      else HostM.fail (.receiver shape.name)
    | none => refuse shape.name v
  | .option content, v =>
    match v with
    | .nil => pure .absent
    | .ptr none => pure .absent
    | other => do return .present (← content.store other)
  | .list item, v =>
    match v with
    | .list items => do return .list (← items.mapM item.store)
    | other => refuse "slice" other
  | .map item, v =>
    match v with
    | .map pairs => do
      let entries ← pairs.mapM fun (key, entry) => do
        let text ← HostM.textOf key
        return (text, ← item.store entry)
      return .map (Datum.ofSortedEntries entries)
    -- an empty table comes back from a script as an empty list
    | .list [] => pure (.map [])
    | other => refuse "map" other

end Storage

namespace HostM

/-- A public field of an object as a host value. -/
def field (id : ObjectId) (name : String) : HostM (Option HostValue) := do
  let shape := (← instanceOf id).shape
  if (shape.publicField? name).isNone then return none
  let i ← readable id
  match i.stored? name with
  | some datum => return some (← datum.read)
  | none => return none

/-- All public fields of an object as host values, in order of declaration. -/
def publicFields (id : ObjectId) : HostM (List (String × HostValue)) := do
  let i ← readable id
  i.publicFields.mapM fun (name, datum) => do return (name, ← datum.read)

/-- Stores a value in a public field. -/
def setField (id : ObjectId) (name : String) (v : HostValue) : HostM Unit := do
  let i ← writable id
  match i.shape.publicField? name with
  | none => fail (.noField i.shape.name name)
  | some declared =>
    let datum ← holding id .exclusive (declared.storage.store v)
    setFields id (Instance.setStored name datum i.shape.fields i.fields)

/-- The argument at an index in its stored form; a missing one may stand for an absent value. -/
def argument (storage : Storage) (args : List HostValue) (index : Nat) : HostM Datum :=
  match args[index]? with
  | some v => storage.store v
  | none =>
    tryCatch (storage.store .nil) fun
      | .error _ => fail (.missingArgument (index + 1))
      | stop => throw stop

def textArg (args : List HostValue) (index : Nat) : HostM String := do
  match ← argument .text args index with
  | .text s => return s
  | _ => return ""

def intArg (args : List HostValue) (index : Nat) : HostM Int64 := do
  match ← argument .int64 args index with
  | .int i => return i
  | _ => return 0

def floatArg (args : List HostValue) (index : Nat) : HostM Binary64 := do
  match ← argument .float args index with
  | .float x => return x
  | _ => return .zero

def objectArg (args : List HostValue) (index : Nat) : HostM ObjectId := do
  match ← argument .object args index with
  | .object id => return id
  | _ => return default

end HostM

end ScriptHost
