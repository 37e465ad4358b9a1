import ScriptHost.Host.Builtin
import ScriptHost.Sample.Functions
import ScriptHost.Sample.Gauge
import ScriptHost.Sample.Probe

/-!
# The catalogue

All classes and registry items, the sample ones included, by name.
-/

namespace ScriptHost

namespace Sample

def classes : List HostClass := [
  ExecContext.hostClass, Store.hostClass, Resource.hostClass, Probe.hostClass, Gauge.hostClass]

/-- The class of a name outside its package. -/
def class? (name : String) : Option HostClass := classes.find? (·.shape.name = name)

/-- The registry items that a name stands for. -/
def entries? (name : String) : Option (List Entry) :=
  match name with
  | "builtins" => some Registry.builtinEntries
  | "NewResource" => some [.function Resource.newFunction]
  | "Version" => some [.function Store.versionFunction]
  | name => (class? name).map fun info => [.type info]

end Sample

end ScriptHost
