import ScriptHost.Boundary.Publisher
import ScriptHost.Dialect
import ScriptHost.Host.Context
import ScriptHost.Settings.Discovery

/-!
# Executions

One run of a script: a fresh machine with a resolver, the native modules of the bridge, `print` and
`log`, and the items that the settings ask for.
-/

namespace ScriptHost

/-- Why a run failed. -/
inductive RunError where
  | setup (e : PublishError)
  /-- The text of what the script raised. -/
  | script (text : String)
  | compile (e : DialectError)
  | settings (e : SettingsError)
  | panicked (text : String)
  | machine (e : ScriptError)

def RunError.message : RunError → String
  | .setup e => "setup failed: " ++ e.message
  | .script text => text
  | .compile e => e.message
  | .settings e => e.message
  | .panicked text => "host panicked: " ++ text
  | .machine e => e.message

abbrev RunM := MachineM RunError

/-- What a host program brings: its classes and the items that scripts may have. -/
structure Host where
  classes : List HostClass
  registry : Registry

/-- A machine readied for one run. -/
structure Execution where
  settings : Settings
  host : Host
  resolver : Nat

namespace Execution

open MachineM

def publisher (execution : Execution) : Publisher where
  registry := execution.host.registry
  classes := execution.host.classes
  policy := execution.settings.binding.assignPolicy
  call := call

def valid (settings : Settings) : RunM Unit :=
  match settings.validate with
  | .ok () => return ()
  | .error what => fail (.settings (.invalid what))

/-- Readies a new machine for a run. -/
def start (settings : Settings) (host : Host) : RunM Execution := do
  valid settings
  Crossing.enable
  let resolver ← mapError .machine (Dialect.resolverFor settings.modules)
  Resolver.installBridge resolver settings.modules settings.bridge
  let execution : Execution := { settings, host, resolver }
  mapError .setup do
    Crossing.enable
    discard (execution.publisher.publishNative none "print" .printer)
    discard (execution.publisher.publishNative none "log" .logger)
  return execution

/-- Publishes the namespaces that settings ask for. -/
def publishNamespaces (b : Publisher) : List NamespaceSettings → PublishM Unit
  | [] => return ()
  | ns :: rest => do
    discard (b.publishPackageAs ns.name ns.package)
    publishNamespaces b rest

/-- Publishes the client, the context and the namespaces, in this order. -/
def introduce (execution : Execution) (context : ExecContext) (client : HostValue) : RunM Unit :=
  mapError .setup do
    let b := execution.publisher
    discard (b.publishObject "client" client)
    let o ← mapError (fun e => .crossing (.host e))
      (onObjects id (ExecContext.layout.new context))
    discard (b.publishObject "ctx" (.ptr (some o)))
    publishNamespaces b execution.settings.binding.namespaces

/-- Runs a source to its end and gives all that was printed. -/
def evaluate (source chunkName : String) : RunM String := do
  mapError (fun e => .script e.message) do
    let f ← Library.loadNamed ("=" ++ chunkName) source.toByteArray
    discard (ScriptM.runFor call f [])
  return (← get).output

/-- Panics end here as errors. -/
def caught {α : Type} (m : RunM α) : RunM α := ExceptT.mk do
  match ← ExceptT.run m with
  | .error (.panic text) => return .error (.error (.panicked text))
  | result => return result

/-- Runs a source on a new machine. -/
def perform (settings : Settings) (host : Host) (context : ExecContext) (source : String)
    (client : HostValue) : RunM String :=
  caught do
    let execution ← start settings host
    execution.introduce context client
    evaluate source context.fullName

/-- Compiles a dialect source and runs the result. -/
def performDialect (settings : Settings) (host : Host) (context : ExecContext) (source : String)
    (client : HostValue) : RunM String := do
  let s ← get
  match Dialect.compile settings.modules settings.dialect s.files s.environment source with
  | .ok code => perform settings host context code client
  | .error stop => throw (stop.map .compile)

end Execution

/-- How a run ended. -/
inductive Verdict where
  | executed
  | failed (message : String)
deriving DecidableEq, Repr

namespace Verdict

def ofResult {α : Type} : Except RunError α → Verdict
  | .ok _ => executed
  | .error e => failed e.message

def isSuccess : Verdict → Bool
  | executed => true
  | failed _ => false

def text : Verdict → String
  | executed => "Executed"
  | failed message => "Error: " ++ message

end Verdict

end ScriptHost
