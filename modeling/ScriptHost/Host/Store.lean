import ScriptHost.Host.Resource

/-!
# Stores

A store keeps host values under text keys in ascending order.
-/

namespace ScriptHost

structure Store where
  name : String := ""
  entries : List (String × HostValue) := []

namespace Store

def shape : Shape where
  name := "Store"
  package := "store"
  fields := [.visible "name" .str .text, .hidden "entries" (.map .any)]

def valueOf : Datum → HostValue
  | .any v => v
  | _ => .nil

def layout : Layout Store where
  shape
  fields s := [.text s.name, .map (s.entries.map fun (key, v) => (key, .any v))]
  ofFields
    | [.text name, .map entries] =>
      { name, entries := entries.map fun (key, datum) => (key, valueOf datum) }
    | _ => {}

def insert (s : Store) (key : String) (v : HostValue) : Store :=
  { s with entries := Datum.insertEntry key v s.entries }

def erase (s : Store) (key : String) : Store :=
  { s with entries := s.entries.filter (·.1 ≠ key) }

def get? (s : Store) (key : String) : Option HostValue := s.entries.lookup key

def keys (s : Store) : List String := s.entries.map (·.1)

def size (s : Store) : Nat := s.entries.length

def isEmpty (s : Store) : Bool := s.entries.isEmpty

def get : HostMethod := layout.method "Get" 1 fun s args => do
  let key ← HostM.textArg args 0
  return ([(s.get? key).getD .nil], s)

/-- Writing a resource advances its revision first. -/
def put : HostMethod := layout.method "Put" 2 fun s args => do
  let key ← HostM.textArg args 0
  let v := args[1]?.getD .nil
  match v.object? with
  | some id =>
    if (← HostM.instanceOf id).shape.Is Resource.shape then Resource.advance id
  | none => pure ()
  return ([], s.insert key v)

def delete : HostMethod := layout.method "Delete" 1 fun s args => do
  let key ← HostM.textArg args 0
  return ([.bool (s.get? key).isSome], s.erase key)

def keysMethod : HostMethod := layout.method "Keys" 0 fun s _ =>
  return ([.list (s.keys.map .str)], s)

def len : HostMethod := layout.method "Len" 0 fun s _ =>
  return ([.int (.ofNat s.size)], s)

def hostClass : HostClass where
  shape
  methods := [get, put, delete, keysMethod, len]
  initial := layout.fields {}

/-- The free function that tells the version of the store interface. -/
def versionFunction : HostFunction where
  package := "store"
  name := "Version"
  arity := 0
  call _ := return [.str "v1"]

end Store

end ScriptHost
