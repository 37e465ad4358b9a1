/-!
# Settings

Everything that can be set for a run, with its defaults and the conditions on it.
-/

namespace ScriptHost

/-- What an assignment does with a value of the wrong kind. -/
inductive AssignPolicy where
  /-- Drops the value. -/
  | lenient
  /-- Raises an error. -/
  | strict
deriving DecidableEq, Inhabited, Repr

inductive LogLevel where
  | trace
  | debug
  | info
  | warn
  | error
deriving DecidableEq, Inhabited, Repr

namespace LogLevel

/-- The filter directive of a level. -/
def directive : LogLevel → String
  | trace => "trace"
  | debug => "debug"
  | info => "info"
  | warn => "warn"
  | error => "error"

def all : List LogLevel := [trace, debug, info, warn, error]

/-- Reads the name of a level, in letters of either case. -/
def ofText? (text : String) : Option LogLevel :=
  let name := text.toLower
  if name = "warning" then some warn else all.find? (·.directive = name)

end LogLevel

namespace AssignPolicy

def name : AssignPolicy → String
  | lenient => "lenient"
  | strict => "strict"

/-- Reads the name of a policy, in letters of either case. -/
def ofText? (text : String) : Option AssignPolicy :=
  [lenient, strict].find? (·.name = text.toLower)

end AssignPolicy

/-- Where modules are found. -/
structure ModuleSettings where
  /-- The variable with the search path of scripts. -/
  pathVar : String := "LUA_PATH"
  /-- The variable with the search path of native modules. -/
  cpathVar : String := "LUA_CPATH"
  /-- Takes precedence over the variable. -/
  path : Option String := none
  cpath : Option String := none
  suffix : String := ".lua"
  nativeSuffix : String := ".so"
  /-- Whether the working directory is searched after all others. -/
  includeCwd : Bool := true
  nativeModules : Bool := true
deriving DecidableEq, Inhabited, Repr

/-- A namespace that every script sees. -/
structure NamespaceSettings where
  name : String
  package : String
deriving DecidableEq, Inhabited, Repr

structure BindingSettings where
  assignPolicy : AssignPolicy := .lenient
  namespaces : List NamespaceSettings := []
deriving DecidableEq, Inhabited, Repr

structure BridgeSettings where
  /-- The modules that a second interpreter provides. -/
  modules : List String := ["lpeg"]
deriving DecidableEq, Inhabited, Repr

/-- The modules of a dialect's own compiler. -/
structure DialectSettings where
  parseModule : String := "moonscript.parse"
  compileModule : String := "moonscript.compile"
deriving DecidableEq, Inhabited, Repr

structure LoggingSettings where
  level : LogLevel := .info
  ansi : Bool := true
deriving DecidableEq, Inhabited, Repr

structure Settings where
  modules : ModuleSettings := {}
  binding : BindingSettings := {}
  bridge : BridgeSettings := {}
  dialect : DialectSettings := {}
  logging : LoggingSettings := {}
deriving DecidableEq, Inhabited, Repr

/-- The variables of the environment. -/
abbrev Variables := List (String × String)

namespace ModuleSettings

/-- The search path of scripts in effect. -/
def scriptPath (m : ModuleSettings) (environment : Variables) : Option String :=
  m.path <|> environment.lookup m.pathVar

/-- The search path of native modules in effect. -/
def nativePath (m : ModuleSettings) (environment : Variables) : Option String :=
  m.cpath <|> environment.lookup m.cpathVar

end ModuleSettings

end ScriptHost
