import ScriptHost.Files.Tree
import ScriptHost.Host.Object

/-!
# Failures at the boundary

What can go wrong between host and scripts, by cause.  Failures nest: a module fails to load
because a script failed, and a script fails because a module did.
-/

namespace ScriptHost

mutual

/-- How running a script failed, as the host sees it. -/
inductive ScriptError where
  | runtime (text : String)
  | malformed (text : String)
  | conversion (found expected : String) (reason : Option String)
  /-- Positions count from one. -/
  | badArgument (position : Nat) (cause : ScriptError)
  /-- A caught failure of the host was raised a second time. -/
  | spentPanic
  | host (e : HostError)
  | crossing (e : CrossingError)
  | loading (e : ModuleError)
  | bridge (e : BridgeError)

/-- Why a value could not go over the boundary. -/
inductive CrossingError where
  | unsupported (kind : String)
  | invalidKey (key : String)
  | unsupportedField (field kind : String)
  | fieldMismatch (field expected found : String)
  | invalidObject (reason : String)
  | cyclic
  | tooDeep (levels : Nat)
  | host (e : HostError)
  | script (e : ScriptError)

/-- Why a module could not be had. -/
inductive ModuleError where
  | notFound (name : String)
  | cycle (name : String)
  | io (name path : String) (cause : FileError)
  | load (name : String) (cause : ScriptError)
  | library (path reason : String)
  | symbol (symbol path : String)

/-- Why something could not be brought over from a second interpreter. -/
inductive BridgeError where
  | thread (path : String)
  | unsupported (path kind : String)
  | notATable (module : String)
  /-- Positions count from one. -/
  | nonStringArgument (position : Nat)
  | nonStringResult (function : String) (position : Nat) (kind : String)
  | call (function : String) (cause : ScriptError)
  | unknownFunction (index : Nat)
  | script (e : ScriptError)

end

instance : Inhabited ScriptError := ⟨.spentPanic⟩
instance : Inhabited CrossingError := ⟨.cyclic⟩
instance : Inhabited ModuleError := ⟨.notFound ""⟩
instance : Inhabited BridgeError := ⟨.unknownFunction 0⟩

mutual

def ScriptError.message : ScriptError → String
  | .runtime text => "runtime error: " ++ text
  | .malformed text => "syntax error: " ++ text
  | .conversion found expected none => s!"error converting Lua {found} to {expected}"
  | .conversion found expected (some reason) =>
    s!"error converting Lua {found} to {expected} ({reason})"
  | .badArgument position cause => s!"bad argument #{position}: " ++ cause.message
  | .spentPanic => "previously resumed panic returned again"
  | .host e => e.message
  | .crossing e => e.message
  | .loading e => e.message
  | .bridge e => e.message

def CrossingError.message : CrossingError → String
  | .unsupported kind => s!"unsupported host value kind: {kind}"
  | .invalidKey key => s!"invalid table key: {key}"
  | .unsupportedField field kind => s!"unsupported field type for {field}: {kind}"
  | .fieldMismatch field expected found => s!"field {field} expects {expected}, got {found}"
  | .invalidObject reason => s!"invalid object: {reason}"
  | .cyclic => "cannot convert a table that contains itself"
  | .tooDeep levels => s!"table nesting exceeds {levels} levels"
  | .host e => e.message
  | .script e => e.message

def ModuleError.message : ModuleError → String
  | .notFound name => s!"module not found: {name}"
  | .cycle name => s!"loop or previous error loading module '{name}'"
  | .io name path cause => s!"error reading module {name} from {path}: " ++ cause.message
  | .load name cause => s!"error loading module {name}: " ++ cause.message
  | .library path reason => s!"failed to open native module {path}: {reason}"
  | .symbol symbol path => s!"no {symbol} function found in {path}"

def BridgeError.message : BridgeError → String
  | .thread path => s!"cannot handle thread at {path}"
  | .unsupported path kind => s!"unsupported {kind} value at {path}"
  | .notATable name => s!"native module {name} did not produce a table"
  | .nonStringArgument position => s!"argument #{position} is not a string"
  | .nonStringResult function position kind => s!"result #{position} of {function} is a {kind}"
  | .call function cause => s!"error calling native function {function}: " ++ cause.message
  | .unknownFunction index => s!"unknown native function handle {index}"
  | .script e => e.message

end

/-- A failure to cross as scripts raise it. -/
def CrossingError.raised : CrossingError → ScriptError
  | .script e => e
  | e => .crossing e

/-- A bridge failure as scripts raise it. -/
def BridgeError.raised : BridgeError → ScriptError
  | .script e => e
  | e => .bridge e

/-- A failure of the host that a script has caught. -/
inductive Fault where
  | error (e : ScriptError)
  /-- The text of a panic until it was raised again. -/
  | panic (text : Option String)

instance : Inhabited Fault := ⟨.panic none⟩

end ScriptHost
