import ScriptHost.Module.Resolver
import ScriptHost.Script.Evaluation

/-!
# Calls

How values are called: functions of scripts run their body, native functions run what they stand
for, and other values are called through their metatable.  Each call has a frame on the stack, which
is bounded.
-/

namespace ScriptHost

namespace Calls

open MachineM ScriptM

/-- What a native function does with its arguments. -/
def native (call : Caller) (n : Native) (args : List Value) : ScriptM (List Value) :=
  match n with
  | .standard f => Library.standard call f args
  | .resolve r => ofHost do
    let name ← Published.textArgument (← receive (first args))
    return [← send (← mapError .loading (Resolver.require call r name))]
  | host => ofHost do
    let args ← args.mapM receive
    match host with
    | .standard _ | .resolve _ => return []
    | .host run => Published.run run args
    | .bound receiver method => Published.bound receiver method args
    | .classGet => Published.classGet args
    | .classSet policy => Published.classSet policy args
    | .classNew info => Published.classNew call info args
    | .classMethod method => Published.classMethod method args
    | .printer => Published.printer args
    | .logger => Published.logger args
    | .placeholder path => Published.placeholder path

/-- The frame of a function that is called with so many arguments at some place of the stack. -/
def frameOf (f : Function) (site : CallSite) (id : FunctionId) (start arguments : Nat) : Frame :=
  match f with
  | .closure routine _ chunk =>
    -- a function of any number of arguments has its slots behind these
    let base := if routine.variadic then start + arguments + 2 else start + 1
    { chunk, site, callee := .function id, start, base, top := base + routine.slots }
  | .native _ =>
    { chunk := none, site, callee := .function id, start, base := start + 1,
      top := start + 1 + arguments }

def slotsOf : Function → Nat
  | .closure routine _ _ => routine.slots
  | .native _ => nativeSlots

/-- Runs a function and those that take its place, whose frames start where its own did. -/
def enter (call : Caller) (start : Nat) :
    Nat → CallSite → FunctionId → List Value → ScriptM (List Value)
  | 0, _, _, _ => throw .endless
  | fuel + 1, site, id, args => do
    let f ← function id
    checkRoom start args.length (slotsOf f)
    let frame := frameOf f site id start args.length
    match f with
    | .native n => inFrame frame (native call n args)
    | .closure routine outer chunk =>
      match ← inFrame frame (Evaluation.apply call routine outer chunk args) with
      | .values values => return values
      | .call next args => enter call start fuel {} next args

/-- Calls a value, with room for so many more calls inside each other. -/
def callAt : Nat → Caller
  | 0, _, _, _ => raise "stack overflow"
  | depth + 1, site, f, args =>
    let run : ScriptM (List Value) := do
      let (id, args) ← callable site stackLimit f args
      enter (callAt depth) (← startOf site) Evaluation.turnLimit site id args
    if site.slot.isSome then run else nested run

end Calls

/-- Calls a value; every call inside another starts later on the stack. -/
def call : Caller := Calls.callAt ScriptM.stackLimit

end ScriptHost
