import ScriptHost.Host.Context
import ScriptHost.Host.Registry
import ScriptHost.Host.Store

/-!
# The items every program has
-/

namespace ScriptHost

namespace Registry

def builtinEntries : List Entry := [
  .type ExecContext.hostClass,
  .type Store.hostClass,
  .type Resource.hostClass,
  .function Resource.newFunction,
  .function Store.versionFunction]

def builtin : Registry := (Registrations.registerAll {} builtinEntries).toRegistry

end Registry

end ScriptHost
