import ScriptHost.Script.Machine

/-!
# Sample loaders

A loader of a module that tells how often it ran: it adds one to the global `hits` first.
-/

namespace ScriptHost

namespace Sample

/-- What a loader does after it was counted. -/
inductive LoaderEnd where
  /-- It gives the same value every time. -/
  | value (v : Value)
  /-- It gives another module. -/
  | module (name : String)
  | failure (message : String)

namespace LoaderEnd

/-- The last statement of the loader, in which `it` is what the loader ends with. -/
def statement : LoaderEnd → String
  | value _ => "return it"
  | module _ => "return require(it)"
  | failure _ => "error(it, 0)"

def operand : LoaderEnd → Value
  | value v => v
  | module name => .text name
  | failure message => .text message

end LoaderEnd

def loader {ε : Type} (last : LoaderEnd) : MachineM ε Value := do
  let text := "hits = (hits or 0) + 1 " ++ last.statement
  match Routine.ofBytes text.toByteArray ["_ENV", "it"] 0 with
  | .ok routine =>
    let globals ← MachineM.newCell (.table (← get).globals)
    let it ← MachineM.newCell last.operand
    MachineM.newFunction (.closure routine #[globals, it] .empty)
  | .error _ => return .nil

end Sample

end ScriptHost
