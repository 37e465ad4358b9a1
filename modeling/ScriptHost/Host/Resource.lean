import ScriptHost.Host.Class

/-!
# Resources

Named objects that stores keep.  Every write of a resource into a store advances its revision,
which scripts cannot see.
-/

namespace ScriptHost

structure Resource where
  kind : String := ""
  name : String := ""
  «namespace» : String := ""
  replicas : Int64 := 0
  weight : Binary64 := .zero
  ready : Bool := false
  labels : List (String × String) := []
  revision : UInt64 := 0

namespace Resource

def shape : Shape where
  name := "Resource"
  package := "store"
  fields := [
    .visible "kind" .str .text,
    .visible "name" .str .text,
    .visible "namespace" .str .text,
    .visible "replicas" .int .int64,
    .visible "weight" .float .float,
    .visible "ready" .bool .bool,
    .visible "labels" .map (.map .text),
    .hidden "revision" .size]

def textOf : Datum → String
  | .text s => s
  | _ => ""

def labelsOf : Datum → List (String × String)
  | .map entries => entries.map fun (key, label) => (key, textOf label)
  | _ => []

def labelData (labels : List (String × String)) : Datum :=
  .map (labels.map fun (key, label) => (key, .text label))

def layout : Layout Resource where
  shape
  fields r := [.text r.kind, .text r.name, .text r.namespace, .int r.replicas, .float r.weight,
    .bool r.ready, labelData r.labels, .size r.revision]
  ofFields
    | [.text kind, .text name, .text «namespace», .int replicas, .float weight, .bool ready, labels,
        .size revision] =>
      { kind, name, «namespace», replicas, weight, ready, labels := labelsOf labels, revision }
    | _ => {}

def hostClass : HostClass where
  shape
  initial := layout.fields {}

/-- A resource in the default namespace. -/
def named (kind name : String) : Resource := { kind, name, «namespace» := "default" }

/-- Advances the revision of a resource object. -/
def advance (id : ObjectId) : HostM Unit :=
  layout.onReceiver id fun r => pure ((), { r with revision := r.revision + 1 })

/-- The free function that makes a resource of a kind and a name. -/
def newFunction : HostFunction where
  package := "store"
  name := "NewResource"
  arity := 2
  call args := do
    let kind ← HostM.textArg args 0
    let name ← HostM.textArg args 1
    return [.ptr (some (← layout.new (named kind name)))]

end Resource

end ScriptHost
