import ScriptHost.Bridge.Snapshot

/-!
# Guests

A guest is a second interpreter with its own search paths and all standard modules.  It loads
modules the interpreter's own way; its functions take and give texts.
-/

namespace ScriptHost

structure Guest where
  machine : Machine
  /-- The functions met so far, by number. -/
  functions : List Value := []

namespace Guest

open MachineM

variable (call : Caller)

/-- A new guest that follows settings. -/
def fresh (settings : ModuleSettings) (files : Files) (environment : Variables) : Guest :=
  let setPath (package : TableId) (field : String) : Option String → MachineM Unit Unit
    | some path => rawSet package (.text field) (.text path)
    | none => pure ()
  let ready : MachineM Unit Unit := do
    let s ← get
    Interpreter.addModule "debug" (← newTable) Interpreter.debugFunctions
    setPath s.package "path" (settings.scriptPath environment)
    setPath s.package "cpath" (settings.nativePath environment)
  ⟨(ready.run.run (.new files environment)).2, []⟩

def scripted {α : Type} (m : MachineM ScriptError α) : BridgeM α := mapError .script m

/-- The table of a module, or the global table of its name. -/
def moduleValue (module : String) : BridgeM Value := do
  let require ← scripted (do Published.expectFunction (← ScriptM.globalFor call "require"))
  match ← mapError (.call s!"require({module})")
      (ScriptM.firstFor call require [.text module]) with
  | .table id => return .table id
  | _ =>
    match ← scripted (ScriptM.globalFor call module) with
    | .table id => return .table id
    | _ => fail (.notATable module)

/-- Runs a computation on a guest's interpreter. -/
def within {α : Type} (guest : Guest) (m : BridgeM α) :
    Except (Stop BridgeError) α × Guest :=
  let (result, machine) := m.run.run guest.machine
  (result, { guest with machine })

/-- The snapshot of a module; the functions that it met stay with the guest, also if it fails. -/
def snapshot (guest : Guest) (module : String) :
    Except (Stop BridgeError) Snapshot × Guest :=
  match guest.within (moduleValue call module) with
  | (.error stop, guest) => (.error stop, guest)
  | (.ok v, guest) =>
    let depth := guest.machine.tables.size
    let (result, functions) :=
      (Snapshot.take guest.machine depth [] module v).run.run guest.functions
    (result, { guest with functions })

/-- Arguments as texts; any other value is refused. -/
def textArguments : Nat → List HostValue → BridgeM (List Value)
  | _, [] => return []
  | index, .str s :: rest => do return .text s :: (← textArguments (index + 1) rest)
  | index, _ :: _ => fail (.nonStringArgument index)

/-- The texts of the first results. -/
def textResults (path : String) : Nat → Nat → List Value → BridgeM (List String)
  | 0, _, _ => return []
  | count + 1, index, results => do
    let v := ScriptM.first results
    match v.bytes? with
    | some bytes => return Utf8.decode bytes :: (← textResults path count (index + 1) results.tail)
    | none => fail (.nonStringResult path index v.hostType)

/-- Calls a function with texts and takes a number of results as texts. -/
def callFunction (guest : Guest) (handle : GuestFunction) (args : List HostValue)
    (count : Nat) : Except (Stop BridgeError) (List String) × Guest :=
  match guest.functions[handle.index]? with
  | none => (.error (.error (.unknownFunction handle.index)), guest)
  | some f => guest.within do
    let args ← textArguments 1 args
    let results ← mapError (.call handle.path) (ScriptM.callFor call f args)
    textResults handle.path count 1 results

/-- A copy of a module out of a guest of its own, which ends with it. -/
def copyOf (settings : ModuleSettings) (module : String) : BridgeM Value := do
  let s ← get
  match (snapshot call (fresh settings s.files s.environment) module).1 with
  | .ok v => Snapshot.rebuild v
  | .error stop => throw stop

end Guest

end ScriptHost
