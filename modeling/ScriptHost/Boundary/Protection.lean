import ScriptHost.Script.Operators

/-!
# Errors that leave scripts

A value that a script raises reaches the host as an error.  A failure that came from the host comes
back as itself; a panic goes on as a panic the first time; any other value is an error with the text
of the value.
-/

namespace ScriptHost

namespace ScriptM

open MachineM

variable {ε α : Type}

/-- The bytes before the first zero. -/
def untilZero (bytes : ByteArray) : ByteArray := .mk (bytes.toList.takeWhile (· != 0)).toArray

/-- Takes the text out of a caught panic, so that it goes on once only. -/
def spend (index : Nat) : MachineM ε Unit :=
  modify fun s => { s with faults := s.faults.setIfInBounds index (.panic none) }

/-- A value on its way to the host: a caught panic goes on, a spent one is an error. -/
def receive (v : Value) : MachineM ε Value := do
  match v with
  | .fault index =>
    match ← fault index with
    | .error _ => return v
    | .panic (some text) =>
      spend index
      throw (.panic text)
    | .panic none => newFault (.error .spentPanic)
  | v => return v

/-- A value on its way to scripts: a failure that the host holds goes in as a new value. -/
def send (v : Value) : MachineM ε Value := do
  match v with
  | .fault index => newFault (← fault index)
  | v => return v

/-- A text may fail this often in a row. -/
def failureLimit : Nat := 200

/-- The error that a raised value is for the host. -/
def leave (call : Caller) : Nat → Value → MachineM ScriptError α
  | fuel, v => do
    match v with
    | .fault index =>
      match ← fault index with
      | .error e => MachineM.fail e
      | .panic (some text) =>
        spend index
        throw (.panic text)
      | .panic none => MachineM.fail .spentPanic
    | v =>
      match fuel with
      | 0 => MachineM.fail (.runtime "C stack overflow")
      | fuel + 1 =>
        match ← attempt (text call v) with
        | .ok bytes => MachineM.fail (.runtime (Utf8.decode (untilZero bytes)))
        | .error inner => leave call fuel inner

/-- Runs a computation of scripts for the host. -/
def protect (call : Caller) (m : ScriptM α) : MachineM ScriptError α := do
  match ← attempt m with
  | .ok a => return a
  | .error v => leave call failureLimit v

/-- Runs a function for the host; what it results in stays with the scripts. -/
def runFor (call : Caller) (f : Value) (args : List Value) :
    MachineM ScriptError (List Value) := do
  let args ← args.mapM send
  protect call (call {} f args)

/-- Calls a function for the host, which takes its results. -/
def callFor (call : Caller) (f : Value) (args : List Value) :
    MachineM ScriptError (List Value) := do
  (← runFor call f args).mapM receive

/-- Calls a function for the host, which takes its first result. -/
def firstFor (call : Caller) (f : Value) (args : List Value) : MachineM ScriptError Value := do
  receive (first (← runFor call f args))

/-- The value under a key, for the host. -/
def indexFor (call : Caller) (subject key : Value) : MachineM ScriptError Value := do
  let key ← send key
  receive (← protect call (index call {} subject key))

/-- Sets the value under a key, for the host. -/
def storeFor (call : Caller) (subject key v : Value) : MachineM ScriptError Unit := do
  let key ← send key
  let v ← send v
  protect call (store call {} subject key v)

/-- A global variable, for the host. -/
def globalFor (call : Caller) (name : String) : MachineM ScriptError Value := do
  indexFor call (.table (← get).globals) (.text name)

def setGlobalFor (call : Caller) (name : String) (v : Value) : MachineM ScriptError Unit := do
  storeFor call (.table (← get).globals) (.text name) v

end ScriptM

end ScriptHost
