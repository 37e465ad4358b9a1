import ScriptHost.Calls
import ScriptHost.Proofs.InterpretedBoundary
import ScriptHost.Proofs.InterpretedEvaluation

/-!
# Calls are interpreted

With what native functions and resolvers do, every call is put together from the parts that scripts
have and from calls that start later on the stack.
-/

namespace ScriptHost

open MachineM ScriptM

variable {call : Caller} {ε : Type}

/-! ## Published host items -/

namespace Published

open Crossing

theorem argumentsToHost_interpreted (args : List Value) : Interpreted call (argumentsToHost args) :=
  (Interpreted.mapM toHost_interpreted args).mapError _

theorem resultsToScript_interpreted (results : List HostValue) :
    Interpreted call (resultsToScript results) :=
  (Interpreted.mapM toScript_interpreted results).mapError _

theorem run_interpreted (host : List HostValue → HostM (List HostValue)) (args : List Value) :
    Interpreted call (run host args) :=
  (argumentsToHost_interpreted args).bind fun _ => .bind (.onObjects _ _) fun _ =>
    resultsToScript_interpreted _

theorem wrongCount_interpreted {α : Type} (method : HostMethod) (got : Nat) :
    Interpreted call (wrongCount method got : BoundaryM α) := .fail _

theorem bound_interpreted (o : ObjectId) (method : HostMethod) (args : List Value) :
    Interpreted call (bound o method args) :=
  .ite (wrongCount_interpreted _ _) (run_interpreted _ _)

theorem receiver_interpreted (v : Option Value) : Interpreted call (receiver v) := by
  refine .bind .get fun s => ?_
  dsimp only
  split
  · exact .pure _
  · exact .pure _
  · exact .fail _

theorem classMethod_interpreted (method : HostMethod) (args : List Value) :
    Interpreted call (classMethod method args) :=
  .ite (wrongCount_interpreted _ _) ((receiver_interpreted _).bind fun _ => run_interpreted _ _)

theorem classGet_interpreted (args : List Value) : Interpreted call (classGet args) := by
  unfold classGet
  exact .guarded (.fail _) <| (receiver_interpreted _).bind fun o =>
    ((fieldTable_interpreted o).mapError _).bind fun _ => .pure _

theorem classSet_interpreted (policy : AssignPolicy) (args : List Value) :
    Interpreted call (classSet policy args) := by
  refine (receiver_interpreted _).bind fun o => ?_
  split
  · exact ((assign_interpreted _ _ _).mapError _).bind fun _ => .pure _
  · exact .fail _

theorem expectFunction_interpreted (v : Value) : Interpreted call (expectFunction v) := by
  unfold expectFunction
  split
  · exact .pure _
  · exact .fail _

theorem expectTable_interpreted (v : Value) : Interpreted call (expectTable v) := by
  unfold expectTable
  split
  · exact .pure _
  · exact .fail _

theorem classNew_interpreted (info : HostClass) (args : List Value) :
    Interpreted call (classNew call info args) := by
  unfold classNew
  refine .guarded (.fail _) ?_
  split
  · refine .bind (.onObjects _ _) fun _ => ((proxyOfPointer_interpreted _).mapError _).bind fun _ =>
      (Interpreted.modifyTable _ _).bind fun _ => ?_
    split
    · exact .pure _
    · exact (indexFor_interpreted _ _).bind fun _ => (expectFunction_interpreted _).bind fun _ =>
        (runFor_interpreted _ _).discard.bind fun _ => .pure _
  · exact .fail _

theorem joined_interpreted (values : List HostValue) : Interpreted call (joined values) :=
  .bind (.onObjects _ _) fun _ => .pure _

theorem addEvent_interpreted (level : LogLevel) (text : String) :
    Interpreted call (addEvent level text) :=
  .change (fun _ => .event _ _) fun _ => ⟨rfl, rfl, fun _ => rfl⟩

theorem printer_interpreted (args : List Value) : Interpreted call (printer args) :=
  (argumentsToHost_interpreted args).bind fun _ => (joined_interpreted _).bind fun _ =>
    (addEvent_interpreted _ _).bind fun _ =>
      .bind (.change (fun _ => .output _) fun _ => ⟨rfl, rfl, fun _ => rfl⟩) fun _ => .pure _

theorem logger_interpreted (args : List Value) : Interpreted call (logger args) :=
  (argumentsToHost_interpreted args).bind fun _ => (joined_interpreted _).bind fun _ =>
    (addEvent_interpreted _ _).bind fun _ => .pure _

theorem textArgument_interpreted (v : Value) : Interpreted call (textArgument v) := by
  unfold textArgument
  split
  · split
    · exact .pure _
    · exact .fail _
  · split
    · exact .pure _
    · exact .fail _

theorem placeholder_interpreted (path : String) : Interpreted call (placeholder path) := .fail _

end Published

/-! ## Modules -/

namespace Snapshot

mutual

theorem rebuild_interpreted : ∀ v : Snapshot, Interpreted call (rebuild v)
  | .nil | .bool _ | .int _ | .float _ | .str _ => .pure _
  | .table entries => (Interpreted.newTable _).bind fun id =>
      (rebuildEntries_interpreted id entries).bind fun _ => .pure _
  | .function _ => .newNative _

theorem rebuildEntries_interpreted (id : TableId) :
    ∀ entries : List (Snapshot × Snapshot), Interpreted call (rebuildEntries id entries)
  | [] => .pure _
  | (k, v) :: rest => by
    have first := rebuild_interpreted k
    have second := rebuild_interpreted v
    have others := rebuildEntries_interpreted id rest
    exact first.bind fun _ => second.bind fun _ => .ite
      ((Interpreted.rawSet _ _ _).bind fun _ => others) ((Interpreted.fail _).bind fun _ => others)

end

end Snapshot

/-- A guest has a machine of its own; what comes out of it is data. -/
theorem Guest.copyOf_interpreted (settings : ModuleSettings) (module : String) :
    Interpreted call (copyOf call settings module) := by
  refine .bind .get fun s => ?_
  split
  · exact Snapshot.rebuild_interpreted _
  · exact .throw _

namespace Resolver

theorem currentCache_interpreted : Interpreted call (currentCache call) := by
  refine .mapError _ ((globalFor_interpreted _).bind fun package => ?_)
  split
  · exact .newTable _
  · exact (Published.expectTable_interpreted _).bind fun _ =>
      (indexFor_interpreted _ _).bind fun _ => Published.expectTable_interpreted _

theorem cache_interpreted (r : Nat) : Interpreted call (cache call r) := by
  refine .bind (.bind .get fun _ => .pure _) fun resolver => ?_
  split
  · exact .pure _
  · exact currentCache_interpreted

theorem cached_interpreted (loaded : TableId) (name : String) :
    Interpreted call (cached loaded name) :=
  (Interpreted.rawGet _ _).bind fun _ => receive_interpreted _

theorem runFile_interpreted (name path : String) : Interpreted call (runFile call name path) := by
  refine .bind .get fun s => ?_
  split
  · exact .fail _
  · exact .bind (.change (fun _ => .loads _) fun _ => ⟨rfl, rfl, fun _ => rfl⟩) fun _ =>
      ((Library.loadNamed_interpreted _ _).bind fun _ => (callFor_interpreted _ _).bind fun _ =>
        .pure _).mapError _

theorem load_interpreted (r : Nat) (name : String) : Interpreted call (load call r name) := by
  refine .bind (.bind .get fun _ => .pure _) fun resolver => ?_
  split
  · exact (Guest.copyOf_interpreted _ _).mapError _
  · exact (firstFor_interpreted _ _).mapError _
  · split
    · exact runFile_interpreted _ _
    · exact .fail _
    · exact .fail _

theorem require_interpreted (r : Nat) (name : String) : Interpreted call (require call r name) :=
  .require (cache_interpreted r) (fun _ => cached_interpreted _ _) (load_interpreted r name)
    send_interpreted fun _ _ => .rawSet _ _ _

/-! What a host does with a resolver is no load either. -/

theorem preload_interpreted (r : Nat) (name : String) (loader : Loader) :
    Interpreted call (preload r name loader : MachineM ε Unit) :=
  .change (fun _ => .resolver r _ fun _ => rfl) fun s => .resolver s r fun _ => rfl

theorem installBridge_interpreted (r : Nat) (settings : ModuleSettings) (bridge : BridgeSettings) :
    Interpreted call (installBridge r settings bridge : MachineM ε Unit) :=
  .forM (fun _ => preload_interpreted _ _ _) _

theorem loadOnce_scripted (r : Nat) (name : String) : Scripted call (loadOnce call r name) :=
  .loadOnce (load_interpreted r name).scripted

theorem new_scripted (index : ModuleIndex) : Scripted call (new index : MachineM ε Nat) :=
  .change fun _ => .newResolver _ rfl

theorem install_scripted (r : Nat) : Scripted call (install call r) :=
  currentCache_interpreted.scripted.bind fun _ =>
    .bind (.change fun _ => .resolver r _ fun _ => rfl) fun _ =>
      (Interpreted.newNative _).scripted.bind fun _ =>
        ((setGlobalFor_interpreted _ _).mapError _).scripted.bind fun _ =>
          .change fun _ => .installed r

theorem holds_interpreted (r : Nat) (name : String) : Interpreted call (holds call r name) :=
  (cache_interpreted r).bind fun _ => (cached_interpreted _ _).bind fun _ => .pure _

theorem forget_interpreted (r : Nat) (name : String) : Interpreted call (forget call r name) :=
  (cache_interpreted r).bind fun _ => .rawSet _ _ _

end Resolver

/-! ## Calls -/

namespace Calls

theorem native_interpreted (n : Native) (args : List Value) :
    Interpreted call (native call n args) := by
  unfold native
  split
  · exact Library.standard_interpreted _ _
  · exact .ofHost <| (receive_interpreted _).bind fun _ =>
      (Published.textArgument_interpreted _).bind fun _ =>
        ((Resolver.require_interpreted _ _).mapError _).bind fun _ =>
          (send_interpreted _).bind fun _ => .pure _
  · refine .ofHost ((Interpreted.mapM receive_interpreted args).bind fun args => ?_)
    split
    · exact .pure _
    · exact .pure _
    · exact Published.run_interpreted _ _
    · exact Published.bound_interpreted _ _ _
    · exact Published.classGet_interpreted _
    · exact Published.classSet_interpreted _ _
    · exact Published.classNew_interpreted _ _
    · exact Published.classMethod_interpreted _ _
    · exact Published.printer_interpreted _
    · exact Published.logger_interpreted _
    · exact Published.placeholder_interpreted _

theorem enter_interpreted (start fuel : Nat) (site : CallSite) (id : FunctionId)
    (args : List Value) : Interpreted call (enter call start fuel site id args) := by
  induction fuel generalizing site id args with
  | zero => exact .throw _
  | succ fuel ih =>
    refine (Interpreted.function id).bind fun f => (checkRoom_interpreted _ _ _).bind fun _ => ?_
    dsimp only
    split
    · exact inFrame_interpreted _ (native_interpreted _ _)
    · refine (inFrame_interpreted _ (Evaluation.apply_interpreted _ _ _ _)).bind fun next => ?_
      split
      · exact .pure _
      · exact ih _ _ _

/-- A call makes calls with less room only. -/
theorem callAt_interpreted (depth : Nat) (site : CallSite) (f : Value) (args : List Value) :
    Interpreted (callAt depth) (callAt (depth + 1) site f args) := by
  refine .ite ?_ (nested_interpreted ?_)
  all_goals
    exact (callable_interpreted _ _ _ _).bind fun _ => (startOf_interpreted _).bind fun _ =>
      enter_interpreted _ _ _ _ _

theorem callAt_confined (depth : Nat) (site : CallSite) (f : Value) (args : List Value) :
    Confined (callAt depth site f args) := by
  induction depth generalizing site f args with
  | zero =>
    have overflow : Interpreted noCalls (callAt 0 site f args) := raise_interpreted _
    exact overflow.confined_alone
  | succ depth ih => exact (callAt_interpreted depth site f args).confined ih

end Calls

/-- Whatever scripts do, the globals, the resolver and the caches are those that they were. -/
theorem confined_of_interpreted {α : Type} {m : MachineM ε α}
    (interpreted : Interpreted ScriptHost.call m) : Confined m :=
  interpreted.confined (Calls.callAt_confined stackLimit)

end ScriptHost
