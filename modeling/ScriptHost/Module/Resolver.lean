import ScriptHost.Bridge.Guest

/-!
# Module resolvers

A resolver is what `require` does: it looks into the cache of loaded modules, then at the loaders
that the host registered, then into its index.  A name that is being loaded may not be loaded again.
-/

namespace ScriptHost

abbrev ModuleM := MachineM ModuleError

namespace Resolver

open MachineM

variable (call : Caller)

def get (r : Nat) : ModuleM Resolver := do
  return (← MonadState.get).resolvers[r]?.getD default

def modifyAt {ε : Type} (r : Nat) (f : Resolver → Resolver) : MachineM ε Unit :=
  modify fun s => { s with resolvers := s.resolvers.modify r f }

/-- A new resolver over an index. -/
def new {ε : Type} (index : ModuleIndex) : MachineM ε Nat :=
  modifyGet fun s => (s.resolvers.size, { s with resolvers := s.resolvers.push { index } })

/-- The cache of modules that the globals lead to at the moment. -/
def currentCache : ModuleM TableId := mapError (.load "package") do
  match ← ScriptM.globalFor call "package" with
  | .nil => newTable
  | package =>
    let id ← Published.expectTable package
    Published.expectTable (← ScriptM.indexFor call (.table id) (.text "loaded"))

/-- The cache of modules that a resolver uses. -/
def cache (r : Nat) : ModuleM TableId := do
  match (← get r).loaded with
  | some id => return id
  | none => currentCache call

def cached (loaded : TableId) (name : String) : ModuleM Value := do
  ScriptM.receive (← rawGet loaded (.text name))

/-- Makes a resolver what `require` does. -/
def install (r : Nat) : ModuleM Unit := do
  let loaded ← currentCache call
  modifyAt r fun resolver => { resolver with loaded := some loaded }
  let f ← newNative (.resolve r)
  mapError (.load "require") (ScriptM.setGlobalFor call "require" f)
  modify fun s => { s with installed := some r }

/-- Registers a loader for a name. -/
def preload {ε : Type} (r : Nat) (name : String) (loader : Loader) : MachineM ε Unit :=
  modifyAt r fun resolver =>
    { resolver with preloads := setPair name loader resolver.preloads }

def knows (r : Nat) (name : String) : ModuleM Bool := do
  return (← get r).index.contains name

def holds (r : Nat) (name : String) : ModuleM Bool := do
  return !(← cached (← cache call r) name).isNil

def forget (r : Nat) (name : String) : ModuleM Unit := do
  rawSet (← cache call r) (.text name) .nil

/-- Runs a script file as the body of a module, which gets the name. -/
def runFile (name path : String) : ModuleM Value := do
  match (← MonadState.get).files.readText path with
  | .error cause => fail (.io name path cause)
  | .ok source =>
    modify fun s => { s with loads := s.loads.push name }
    mapError (.load name) do
      let f ← Library.loadNamed ("@" ++ path) source.toByteArray
      return ScriptM.first (← ScriptM.callFor call f [.text name])

/-- The function that a native module starts with. -/
def entryPoint (name : String) : String := "luaopen_" ++ replaceText "." "_" name

/-- What a file is that holds no native library. -/
def notALibrary : String := "not a shared library"

/-- Runs the loader of a name. -/
def load (r : Nat) (name : String) : ModuleM Value := do
  let resolver ← get r
  match resolver.preloads.lookup name with
  | some (.bridge settings) =>
    mapError (fun e => .load name (BridgeError.raised e))
      (Guest.copyOf call settings name)
  | some (.script f) =>
    mapError (.load name) (ScriptM.firstFor call f [.text name])
  | none =>
    match resolver.index.get? name with
    | some (.script path) => runFile call name path
    | some (.native path) => fail (.library path notALibrary)
    | none => fail (.notFound name)

/-- Runs the loader of a name unless one is running already. -/
def loadOnce (r : Nat) (name : String) : ModuleM Value := do
  if (← get r).loading.contains name then fail (.cycle name)
  modifyAt r fun resolver => { resolver with loading := name :: resolver.loading }
  let result ← attempt (load call r name)
  modifyAt r fun resolver => { resolver with loading := resolver.loading.erase name }
  match result with
  | .ok v => return v
  | .error e => fail e

/-- The module of a name, loaded if it is not in the cache. -/
def require (r : Nat) (name : String) : ModuleM Value := do
  let loaded ← cache call r
  let present ← cached loaded name
  if !present.isNil then return present
  let v ← loadOnce call r name
  if !v.isNil then
    rawSet loaded (.text name) (← ScriptM.send v)
    return v
  -- a body without a result may have entered one itself
  let stored ← cached loaded name
  if !stored.isNil then return stored
  rawSet loaded (.text name) (.bool true)
  return .bool true

/-- Registers the modules that a second interpreter provides. -/
def installBridge {ε : Type} (r : Nat) (settings : ModuleSettings) (bridge : BridgeSettings) :
    MachineM ε Unit :=
  bridge.modules.forM fun module => preload r module (.bridge settings)

end Resolver

end ScriptHost
