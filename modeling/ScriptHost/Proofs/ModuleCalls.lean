import ScriptHost.Proofs.ModuleBodies

/-!
# Calls around modules

What a call makes of the run of its function.  A call that no script function makes by itself, such
as that of a module's body, runs one level deeper than before; a body calls the function of a
resolver by itself.
-/

namespace ScriptHost

open MachineM ScriptM

/-! ## Frames and levels -/

namespace ScriptM

variable {α : Type}

theorem runOn_inFrame (frame : Frame) (m : ScriptM α) (s : Machine) :
    (inFrame frame m).runOn s =
      ((m.runOn { s with frames := frame :: s.frames }).1,
        { (m.runOn { s with frames := frame :: s.frames }).2 with frames := s.frames }) := by
  unfold inFrame
  rw [runOn_bind_ok (runOn_get s), runOn_bind_ok (runOn_modify _ s), runOn_andThen]

theorem runOn_nested (m : ScriptM α) {s : Machine} (room : s.nesting + 1 < nestingLimit) :
    (nested m).runOn s =
      ((m.runOn { s with nesting := s.nesting + 1 }).1,
        { (m.runOn { s with nesting := s.nesting + 1 }).2 with nesting := s.nesting }) := by
  unfold nested
  rw [runOn_bind_ok (runOn_get s), if_neg (Nat.not_le_of_lt room),
    runOn_bind_ok (runOn_modify _ s), runOn_andThen]
  rfl

theorem runOn_checkRoom {start arguments slots : Nat} (s : Machine)
    (room : start + 1 + arguments + slots ≤ stackLimit) :
    (checkRoom start arguments slots).runOn s = (.ok (), s) := by
  unfold checkRoom
  rw [if_neg (Nat.not_lt_of_le room)]
  rfl

/-- A call that no script function makes by itself starts behind the innermost call. -/
theorem runOn_startOf_outside {site : CallSite} (outside : site.slot = none) (s : Machine) :
    (startOf site).runOn s = (.ok s.top, s) := by
  unfold startOf Machine.top
  rw [runOn_bind_ok (runOn_get s), outside]
  cases s.frames with
  | nil => rfl
  | cons frame rest => rfl

theorem runOn_startOf_own {site : CallSite} {slot : Nat} (own : site.slot = some slot)
    (s : Machine) : ∃ start ≤ s.base + slot, (startOf site).runOn s = (.ok start, s) := by
  unfold startOf Machine.base
  rw [runOn_bind_ok (runOn_get s), own]
  cases s.frames with
  | nil => exact ⟨0, Nat.zero_le _, rfl⟩
  | cons frame rest => exact ⟨frame.base + slot, Nat.le_refl _, rfl⟩

theorem runOn_function {id : FunctionId} {f : Function} {s : Machine}
    (found : s.functions[id.index]? = some f) :
    (MachineM.function id : ScriptM Function).runOn s = (.ok f, s) := by
  unfold MachineM.function
  rw [runOn_bind_ok (runOn_get s), found]
  rfl

end ScriptM

/-! ## Lines -/

/-- The machine with the line of the innermost call set. -/
def Machine.atLine (s : Machine) (line : Nat) : Machine :=
  match s.frames with
  | frame :: rest => { s with frames := { frame with line := line } :: rest }
  | [] => s

theorem ScriptM.runOn_setLine (line : Nat) (s : Machine) :
    (setLine line).runOn s = (.ok (), s.atLine line) := rfl

theorem Machine.quiet_atLine (q : Requirer) (s : Machine) (line : Nat) :
    Quiet q s (s.atLine line) := by
  unfold Machine.atLine
  split
  · next frame rest same =>
    refine ⟨⟨rfl, rfl, rfl, rfl, ?_, ?_, Nat.le_refl _, fun _ _ found => found, rfl,
      fun relied => q.kept_beside relied rfl rfl rfl rfl⟩, fun _ => rfl, rfl⟩
    · simp [Machine.base, same]
    · simp [Machine.top, same]
  · exact .refl q s

/-- Nothing but the innermost frame changes. -/
theorem Machine.atLine_eq (s : Machine) (line : Nat) :
    s.atLine line = { s with frames := s.frames.modifyHead fun frame => { frame with line } } := by
  unfold Machine.atLine
  split
  · next same => rw [same, List.modifyHead_cons]
  · next same =>
    cases s
    cases same
    rfl

theorem Machine.cells_atLine (s : Machine) (line : Nat) : (s.atLine line).cells = s.cells := by
  rw [atLine_eq]

theorem Machine.tables_atLine (s : Machine) (line : Nat) : (s.atLine line).tables = s.tables := by
  rw [atLine_eq]

theorem Machine.functions_atLine (s : Machine) (line : Nat) :
    (s.atLine line).functions = s.functions := by
  rw [atLine_eq]

/-- A body that has looked up a global function is about to call it. -/
def Machine.calling (s : Machine) (line : Nat) (name : String) (line' : Nat) : Machine :=
  ((s.atLine line).searched s.globals name).atLine line'

theorem Machine.quiet_calling (q : Requirer) (s : Machine) (line : Nat) (name : String)
    (line' : Nat) : Quiet q s (s.calling line name line') :=
  ((s.quiet_atLine q line).trans (quiet_searched _ _ _ q)).trans (quiet_atLine q _ line')

theorem Machine.cells_calling (s : Machine) (line : Nat) (name : String) (line' : Nat) :
    (s.calling line name line').cells = s.cells := by
  rw [calling, cells_atLine, cells_searched, cells_atLine]

namespace Calls

/-! ## The function of a resolver -/

/-- A name is a text that the host takes as it is. -/
theorem textArgument_text (name : String) :
    Published.textArgument (.text name) = (pure name : Published.BoundaryM String) := by
  unfold Published.textArgument Value.text
  dsimp only
  rw [Utf8.decode?_toByteArray]

theorem native_resolve {call : Caller} {r : Nat} {name : String} :
    native call (.resolve r) [.text name] =
      ofHost do return [← send (← mapError .loading (Resolver.require call r name))] := by
  have received : (receive (first [.text name]) : Published.BoundaryM Value) = pure (.text name) :=
    receive_of_crosses nofun
  unfold native
  dsimp only
  rw [received, pure_bind, textArgument_text, pure_bind]

theorem resolve_ok {call : Caller} {r : Nat} {name : String} {s t : Machine} {v : Value}
    (crosses : v.Crosses) (found : (Resolver.require call r name).runOn s = (.ok v, t)) :
    (native call (.resolve r) [.text name]).runOn s = (.ok [v], t) := by
  have passed : (mapError .loading (Resolver.require call r name) :
      MachineM ScriptError Value).runOn s = (.ok v, t) := by
    rw [runOn_mapError, found]
    rfl
  rw [native_resolve, runOn_ofHost, runOn_bind_ok passed, send_of_crosses crosses, pure_bind]
  rfl

theorem resolve_error {call : Caller} {r : Nat} {name : String} {s t : Machine} {e : ModuleError}
    (failed : (Resolver.require call r name).runOn s = (.error (.error e), t)) :
    (native call (.resolve r) [.text name]).runOn s =
      (.error (.error (.fault t.faults.size)),
        { t with faults := t.faults.push (.error (.loading e)) }) := by
  have passed : (mapError .loading (Resolver.require call r name) :
      MachineM ScriptError Value).runOn s = (.error (.error (.loading e)), t) := by
    rw [runOn_mapError, failed]
    rfl
  rw [native_resolve, runOn_ofHost, runOn_bind_stop passed]

/-! ## Native functions -/

/-- A frame of a native function. -/
def nativeFrame (site : CallSite) (id : FunctionId) (start arguments : Nat) : Frame :=
  { chunk := none, site, callee := .function id, start, base := start + 1,
    top := start + 1 + arguments }

theorem stackLimit_pos : ∃ depth, stackLimit = depth + 1 :=
  Nat.exists_eq_succ_of_ne_zero (by decide)

theorem turnLimit_pos : ∃ fuel, Evaluation.turnLimit = fuel + 1 :=
  Nat.exists_eq_succ_of_ne_zero (by decide)

section

variable {n : Native} {depth : Nat} {site : CallSite} {id : FunctionId} {s : Machine}
  (native_ : s.functions[id.index]? = some (.native n)) (args : List Value)

include native_

theorem enter_native {start fuel : Nat}
    (room : start + 1 + args.length + nativeSlots ≤ stackLimit) :
    (enter (callAt depth) start (fuel + 1) site id args).runOn s =
      (inFrame (nativeFrame site id start args.length)
        (native (callAt depth) n args)).runOn s := by
  have checked : (checkRoom start args.length (slotsOf (.native n))).runOn s = (.ok (), s) :=
    runOn_checkRoom s room
  unfold enter
  rw [runOn_bind_ok (runOn_function native_), runOn_bind_ok checked]
  rfl

/-- A script calls a native function by itself. -/
theorem callAt_native {slot : Nat} (own : site.slot = some slot)
    (room : s.base + slot + 1 + args.length + nativeSlots ≤ stackLimit) :
    ∃ start ≤ s.base + slot,
      (callAt (depth + 1) site (.function id) args).runOn s =
        (inFrame (nativeFrame site id start args.length)
          (native (callAt depth) n args)).runOn s := by
  obtain ⟨start, below, found⟩ := runOn_startOf_own own s
  obtain ⟨fuel, limit⟩ := turnLimit_pos
  refine ⟨start, below, ?_⟩
  have direct : site.slot.isSome = true := by
    rw [own]
    rfl
  unfold callAt
  rw [if_pos direct]
  have called : (callable site stackLimit (.function id) args).runOn s = (.ok (id, args), s) := by
    unfold callable
    rfl
  rw [runOn_bind_ok called]
  dsimp only
  rw [runOn_bind_ok found, limit]
  exact enter_native native_ args (by omega)

end

/-! ## The function of a body -/

/-- A frame of the body of a module, which is called with its name. -/
def bodyFrame (routine : Routine) (outer : Array Nat) (chunk : ByteArray) (id : FunctionId)
    (start : Nat) : Frame :=
  frameOf (.closure routine outer chunk) {} id start 1

theorem bodyFrame_base (routine : Routine) (outer : Array Nat) (chunk : ByteArray)
    (id : FunctionId) (start : Nat) :
    (bodyFrame routine outer chunk id start).base ≤ start + 3 := by
  unfold bodyFrame frameOf
  dsimp only
  split
  · exact Nat.le_refl _
  · omega

theorem bodyFrame_top (routine : Routine) (outer : Array Nat) (chunk : ByteArray)
    (id : FunctionId) (start : Nat) :
    (bodyFrame routine outer chunk id start).top =
      (bodyFrame routine outer chunk id start).base + routine.slots := rfl

theorem enter_closure {routine : Routine} {outer : Array Nat} {chunk : ByteArray} {start : Nat}
    {id : FunctionId} {s : Machine} (depth fuel : Nat) (site : CallSite) (args : List Value)
    (closure : s.functions[id.index]? = some (.closure routine outer chunk))
    (room : start + 1 + args.length + routine.slots ≤ stackLimit) :
    (enter (callAt depth) start (fuel + 1) site id args).runOn s =
      (inFrame (frameOf (.closure routine outer chunk) site id start args.length)
        (Evaluation.apply (callAt depth) routine outer chunk args) >>=
          finish (callAt depth) start fuel).runOn s := by
  have enough : start + 1 + args.length + slotsOf (.closure routine outer chunk) ≤ stackLimit :=
    room
  rw [enter, runOn_bind_ok (runOn_function closure), runOn_bind_ok (runOn_checkRoom s enough)]
  rfl

/-- The machine on which a function runs that no script function calls by itself. -/
def entered (s : Machine) (frame : Frame) : Machine :=
  { s with frames := frame :: s.frames, nesting := s.nesting + 1 }

/-- The machine after such a function, which another machine called. -/
def returned (s t : Machine) : Machine := { t with frames := s.frames, nesting := s.nesting }

section

variable {routine : Routine} {outer : Array Nat} {chunk : ByteArray} {id : FunctionId}
  {site : CallSite} {s t u : Machine} (depth : Nat) (outside : site.slot = none) (args : List Value)
  (closure : s.functions[id.index]? = some (.closure routine outer chunk))
  (level : s.nesting + 1 < nestingLimit)
  (room : s.top + 1 + args.length + routine.slots ≤ stackLimit)

include outside closure level room

/-- A function that no script function calls by itself runs one level deeper. -/
theorem callAt_enter : ∃ fuel, Evaluation.turnLimit = fuel + 1 ∧
    (callAt (depth + 1) site (.function id) args).runOn s =
      (nested (inFrame (frameOf (.closure routine outer chunk) site id s.top args.length)
        (Evaluation.apply (callAt depth) routine outer chunk args) >>=
          finish (callAt depth) s.top fuel)).runOn s := by
  obtain ⟨fuel, limit⟩ := turnLimit_pos
  refine ⟨fuel, limit, ?_⟩
  have called (u : Machine) : (callable site stackLimit (.function id) args).runOn u =
      (.ok (id, args), u) := by
    unfold callable
    rfl
  have same := enter_closure (s := { s with nesting := s.nesting + 1 }) depth fuel site args closure
    room
  have indirect : ¬ site.slot.isSome = true := by
    rw [outside]
    decide
  rw [callAt, if_neg indirect, runOn_nested _ level, runOn_nested _ level, runOn_bind_ok (called _)]
  dsimp only
  rw [runOn_bind_ok (runOn_startOf_outside outside _), limit]
  exact congrArg (fun outcome => (outcome.1, { outcome.2 with nesting := s.nesting })) same

/-- It may end with a call of another function, which takes its place. -/
theorem callAt_closure_ok {c : Completion} {values : List Value}
    (run : (Evaluation.apply (callAt depth) routine outer chunk args).runOn (entered s
      (frameOf (.closure routine outer chunk) site id s.top args.length)) = (.ok c, t))
    (finished : ∀ fuel, Evaluation.turnLimit = fuel + 1 →
      (finish (callAt depth) s.top fuel c).runOn { t with frames := s.frames } =
        (.ok values, { u with frames := s.frames })) :
    (callAt (depth + 1) site (.function id) args).runOn s = (.ok values, returned s u) := by
  obtain ⟨fuel, limit, same⟩ := callAt_enter depth outside args closure level room
  have framed : (inFrame (frameOf (.closure routine outer chunk) site id s.top args.length)
      (Evaluation.apply (callAt depth) routine outer chunk args)).runOn
        { s with nesting := s.nesting + 1 } = (.ok c, { t with frames := s.frames }) := by
    rw [runOn_inFrame]
    exact congrArg (fun outcome => (outcome.1, { outcome.2 with frames := s.frames })) run
  rw [same, runOn_nested _ level, runOn_bind_ok framed, finished fuel limit]
  rfl

theorem callAt_closure_stop {stop : Stop Value}
    (run : (Evaluation.apply (callAt depth) routine outer chunk args).runOn (entered s
      (frameOf (.closure routine outer chunk) site id s.top args.length)) = (.error stop, t)) :
    (callAt (depth + 1) site (.function id) args).runOn s = (.error stop, returned s t) := by
  obtain ⟨fuel, -, same⟩ := callAt_enter depth outside args closure level room
  have framed : (inFrame (frameOf (.closure routine outer chunk) site id s.top args.length)
      (Evaluation.apply (callAt depth) routine outer chunk args)).runOn
        { s with nesting := s.nesting + 1 } = (.error stop, { t with frames := s.frames }) := by
    rw [runOn_inFrame]
    exact congrArg (fun outcome => (outcome.1, { outcome.2 with frames := s.frames })) run
  rw [same, runOn_nested _ level, runOn_bind_stop framed]
  rfl

end

end Calls

end ScriptHost
