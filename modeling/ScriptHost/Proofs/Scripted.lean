import ScriptHost.Module.Resolver

/-!
# What scripts can do to the machine

Whatever a script does, or a host with its resolvers, is put together from few parts: elementary
changes of the machine, calls, and loads of modules, one after the other or inside a handler.  A
property of all runs needs a proof for these parts only.
-/

namespace ScriptHost

/-- One elementary change of the machine. -/
inductive Machine.Change (s : Machine) : Machine → Prop where
  | none : Change s s
  | newTable (t : Table) : Change s { s with tables := s.tables.push t }
  | table (id : TableId) (f : Table → Table) :
      Change s { s with tables := s.tables.modify id.index f }
  | newFunction (f : Function) : Change s { s with functions := s.functions.push f }
  | newCell (v : Value) : Change s { s with cells := s.cells.push v }
  | cell (index : Nat) (v : Value) : Change s { s with cells := s.cells.setIfInBounds index v }
  | newFault (f : Fault) : Change s { s with faults := s.faults.push f }
  | spend (index : Nat) :
      Change s { s with faults := s.faults.setIfInBounds index (.panic Option.none) }
  | newThread (f : Value) : Change s { s with threads := s.threads.push f }
  | objects (objects : Objects) : Change s { s with objects }
  | frames (frames : List Frame) : Change s { s with frames }
  | nesting (nesting : Nat) : Change s { s with nesting }
  | proxy (id : TableId) (slot : Nat) (handles : Arena Handle) :
      Change s { s with handles := some handles, proxies := (id, slot) :: s.proxies }
  | output (output : String) : Change s { s with output }
  | event (level : LogLevel) (text : String) :
      Change s { s with events := s.events.push (level, text) }
  | newResolver (resolver : Resolver) (idle : resolver.loading = []) :
      Change s { s with resolvers := s.resolvers.push resolver }
  /-- The names being loaded are no setting of a resolver. -/
  | resolver (r : Nat) (f : Resolver → Resolver) (keeps : ∀ x, (f x).loading = x.loading) :
      Change s { s with resolvers := s.resolvers.modify r f }
  | installed (r : Nat) : Change s { s with installed := some r }
  | loads (loads : Array String) : Change s { s with loads }

open MachineM

/-- Computations of scripts and of the host around them, which make calls in a given way. -/
inductive Scripted (call : Caller) : {ε α : Type} → MachineM ε α → Prop where
  | pure {ε α : Type} (a : α) : Scripted call (Pure.pure a : MachineM ε α)
  | throw {ε α : Type} (stop : Stop ε) : Scripted call (MonadExcept.throw stop : MachineM ε α)
  | get {ε : Type} : Scripted call (MonadState.get : MachineM ε Machine)
  | change {ε α : Type} {f : Machine → α × Machine} (changes : ∀ s : Machine, s.Change (f s).2) :
      Scripted call (modifyGet f : MachineM ε α)
  | onObjects {ε α : Type} (f : HostError → ε) (m : HostM α) : Scripted call (MachineM.onObjects f m)
  | bind {ε α β : Type} {m : MachineM ε α} {f : α → MachineM ε β} (first : Scripted call m)
      (rest : ∀ a, Scripted call (f a)) : Scripted call (m >>= f)
  | attempt {ε ε' α : Type} {m : MachineM ε α} (inner : Scripted call m) :
      Scripted call (MachineM.attempt m : MachineM ε' (Except ε α))
  | mapError {ε ε' α : Type} {m : MachineM ε α} (f : ε → ε') (inner : Scripted call m) :
      Scripted call (MachineM.mapError f m)
  | andThen {ε α : Type} {m : MachineM ε α} {f : Machine → Machine} (inner : Scripted call m)
      (changes : ∀ s : Machine, s.Change (f s)) : Scripted call (MachineM.andThen m (modify f))
  /-- A panic of the host becomes a value here, which scripts can catch. -/
  | ofHost {α : Type} {m : MachineM ScriptError α} (inner : Scripted call m) :
      Scripted call (ScriptM.ofHost m)
  | call (site : CallSite) (f : Value) (args : List Value) : Scripted call (call site f args)
  /-- A name is marked while its loader runs. -/
  | loadOnce {r : Nat} {name : String} (inner : Scripted call (Resolver.load call r name)) :
      Scripted call (Resolver.loadOnce call r name)

namespace Scripted

variable {call : Caller} {ε α : Type}

theorem ite {c : Prop} [Decidable c] {m n : MachineM ε α} (first : Scripted call m)
    (second : Scripted call n) : Scripted call (if c then m else n) := by
  split
  · exact first
  · exact second

end Scripted

end ScriptHost
