import ScriptHost.Execution

/-!
# Failures of any kind

One type for callers that treat all failures alike.  A failure has a code, which names its cause
however deep that lies, and a message.
-/

namespace ScriptHost

def HostError.code : HostError → String
  | .conversion .. => "Host.Conversion"
  | .missingArgument _ => "Host.MissingArgument"
  | .receiver _ => "Host.Receiver"
  | .busy _ => "Host.Busy"
  | .noField .. => "Host.NoField"
  | .custom _ => "Host.Custom"

def ModuleError.code : ModuleError → String
  | .notFound _ => "Module.NotFound"
  | .cycle _ => "Module.Cycle"
  | .io .. => "Module.Io"
  | .load .. => "Module.Load"
  | .library .. => "Module.Library"
  | .symbol .. => "Module.Symbol"

mutual

def ScriptError.code : ScriptError → String
  | .runtime _ => "Lua.Runtime"
  | .malformed _ => "Lua.Syntax"
  | .conversion .. => "Lua.FromLua"
  | .badArgument .. => "Lua.BadArgument"
  | .spentPanic => "Lua.Other"
  | .host e => e.code
  | .crossing e => e.code
  | .loading e => e.code
  | .bridge e => e.code

def CrossingError.code : CrossingError → String
  | .unsupported _ => "Marshal.Unsupported"
  | .invalidKey _ => "Marshal.InvalidKey"
  | .unsupportedField .. => "Marshal.UnsupportedField"
  | .fieldMismatch .. => "Marshal.FieldMismatch"
  | .invalidObject _ => "Marshal.InvalidObject"
  | .cyclic => "Marshal.Cyclic"
  | .tooDeep _ => "Marshal.TooDeep"
  | .host e => e.code
  | .script e => e.code

def BridgeError.code : BridgeError → String
  | .thread _ => "Bridge.Thread"
  | .unsupported .. => "Bridge.Unsupported"
  | .notATable _ => "Bridge.NotATable"
  | .nonStringArgument _ => "Bridge.NonStringArgument"
  | .nonStringResult .. => "Bridge.NonStringResult"
  | .call .. => "Bridge.Call"
  | .unknownFunction _ => "Bridge.UnknownFunction"
  | .script e => e.code

end

def PublishError.code : PublishError → String
  | .notPointer .. => "Bind.NotPointer"
  | .nilObject _ => "Bind.NilObject"
  | .crossing e => e.code
  | .script e => e.code

def DialectError.code : DialectError → String
  | .parse _ => "Compile.Parse"
  | .compile _ => "Compile.Compile"
  | .script _ => "Compile.Lua"

def SettingsError.code : SettingsError → String
  | .file _ => "Config.FileError"
  | .malformed => "Config.ParseError"
  | .invalid _ => "Config.ValidationError"

def RegistryError.code : RegistryError → String
  | .alreadyInstalled => "Registry.AlreadyInstalled"
  | .duplicate _ => "Registry.Duplicate"

def RunError.code : RunError → String
  | .setup e => "Exec.Setup/" ++ e.code
  | .script _ => "Exec.Script"
  | .compile e => "Exec.Compile/" ++ e.code
  | .settings _ => "Exec.Config"
  | .panicked _ => "Exec.Panicked"
  | .machine _ => "Exec.Lua"

inductive Failure where
  | bind (e : PublishError)
  | crossing (e : CrossingError)
  | loading (e : ModuleError)
  | bridge (e : BridgeError)
  | compile (e : DialectError)
  | run (e : RunError)
  | settings (e : SettingsError)
  | registry (e : RegistryError)
  | script (e : ScriptError)

namespace Failure

def code : Failure → String
  | bind e => e.code
  | crossing e => e.code
  | loading e => e.code
  | bridge e => e.code
  | compile e => e.code
  | run e => e.code
  | settings e => e.code
  | registry e => e.code
  | script e => e.code

/-- The message of the failure itself. -/
def text : Failure → String
  | bind e => e.message
  | crossing e => e.message
  | loading e => e.message
  | bridge e => e.message
  | compile e => e.message
  | run e => e.message
  | settings e => e.message
  | registry e => e.message
  | script e => e.message

/-- The part of the program that failed. -/
def area : Failure → String
  | bind _ => "Binding"
  | crossing _ => "Marshal"
  | loading _ => "Module"
  | bridge _ => "Bridge"
  | compile _ => "Compile"
  | run _ => "Execution"
  | settings _ => "Config"
  | registry _ => "Registry"
  | script _ => "Lua"

def message (f : Failure) : String := f.area ++ " error: " ++ f.text

end Failure

instance : Coe HostError Failure := ⟨fun e => .crossing (.host e)⟩
instance : Coe PublishError Failure := ⟨.bind⟩
instance : Coe CrossingError Failure := ⟨.crossing⟩
instance : Coe ModuleError Failure := ⟨.loading⟩
instance : Coe BridgeError Failure := ⟨.bridge⟩
instance : Coe DialectError Failure := ⟨.compile⟩
instance : Coe RunError Failure := ⟨.run⟩
instance : Coe SettingsError Failure := ⟨.settings⟩
instance : Coe RegistryError Failure := ⟨.registry⟩
instance : Coe ScriptError Failure := ⟨.script⟩

end ScriptHost
