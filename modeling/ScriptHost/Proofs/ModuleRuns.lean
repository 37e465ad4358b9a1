import ScriptHost.Proofs.Marks
import ScriptHost.Proofs.ModuleCalls
import ScriptHost.Proofs.ModuleEntries
import ScriptHost.Proofs.ModuleSearch

/-!
# Runs of a resolver over a set of modules

Requiring a module of a set on a machine does what the search of their graph does: it has the same
failure, enters the modules that the search completes in the cache, and logs those whose bodies the
search starts.
-/

namespace ScriptHost

open MachineM ScriptM

namespace ScriptM

variable {call : Caller} {f : Value} {name : String} {s t : Machine}

theorem runOn_protect {α : Type} {m : ScriptM α} {a : α} (run : m.runOn s = (.ok a, t)) :
    (protect call m).runOn s = (.ok a, t) := by
  have attempted : (attempt m : MachineM ScriptError (Except Value α)).runOn s = (.ok (.ok a), t) := by
    rw [runOn_attempt, run]
  rw [protect, runOn_bind_ok attempted]
  rfl

theorem callFor_ok {values : List Value} (crosses : ∀ v ∈ values, v.Crosses)
    (run : (call {} f [.text name]).runOn s = (.ok values, t)) :
    (callFor call f [.text name]).runOn s = (.ok values, t) := by
  have passed : (runFor call f [.text name]).runOn s = (.ok values, t) := by
    rw [runFor, mapM_send_text, pure_bind, runOn_protect run]
  rw [callFor, runOn_bind_ok passed, mapM_receive_of_crosses crosses]
  rfl

/-- A failure that a script passes on leaves it as what it was. -/
theorem callFor_error {index : Nat} {e : ScriptError}
    (run : (call {} f [.text name]).runOn s = (.error (.error (.fault index)), t))
    (fault : t.faults[index]? = some (.error e)) :
    (callFor call f [.text name]).runOn s = (.error (.error e), t) := by
  have failed : (runFor call f [.text name]).runOn s = (.error (.error e), t) := by
    have attempted : (attempt (call {} f [.text name]) :
        MachineM ScriptError (Except Value (List Value))).runOn s =
          (.ok (.error (.fault index)), t) := by
      rw [runOn_attempt, run]
    have found : (MachineM.fault index : MachineM ScriptError Fault).runOn t =
        (.ok (.error e), t) := by
      rw [runOn_fault, fault]
      rfl
    rw [runFor, mapM_send_text, pure_bind, protect, runOn_bind_ok attempted]
    dsimp only
    rw [failureLimit, leave]
    rw [runOn_bind_ok found]
    rfl
  rw [callFor, runOn_bind_stop failed]

end ScriptM

namespace Library

/-- The machine with the function of a text that was read. -/
def withBody (s : Machine) (routine : Routine) (chunk : ByteArray) : Machine :=
  { s with
    cells := s.cells.push (.table s.globals)
    functions := s.functions.push (.closure routine #[s.cells.size] chunk) }

theorem loadNamed_ok {chunk : String} {bytes : ByteArray} {routine : Routine} {s : Machine}
    (named : chunk.toByteArray.toList.findIdx? (· == 0) = none)
    (read : Routine.ofBytes bytes ["_ENV"] s.nesting = .ok routine) :
    (loadNamed chunk bytes).runOn s =
      (.ok (.function ⟨s.functions.size⟩), withBody s routine (chunkText chunk)) := by
  unfold loadNamed
  rw [named]
  dsimp only
  unfold load
  rw [runOn_bind_ok (runOn_get s), read]
  rfl

theorem loadNamed_tooDeep {chunk : String} {bytes : ByteArray} {s : Machine}
    (named : chunk.toByteArray.toList.findIdx? (· == 0) = none)
    (deep : Routine.ofBytes bytes ["_ENV"] s.nesting = .error .tooDeep) :
    (loadNamed chunk bytes).runOn s = (.error (.error (.runtime "C stack overflow")), s) := by
  unfold loadNamed
  rw [named]
  dsimp only
  unfold load
  rw [runOn_bind_ok (runOn_get s), deep]
  rfl

end Library

/-! ## Stages of a run -/

/-- The resolver over the modules while some are in progress. -/
def ModuleSet.resolver {q : Requirer} {limit : Nat} (modules : ModuleSet q limit)
    (stack : List String) : Resolver where
  index := modules.index
  loading := stack
  loaded := some q.cache

/--
A machine with a resolver over a set of modules: the names in progress, the last one first, and the
finished ones, which are in the cache.  Only some names matter there; others may be in the cache
for other reasons.
-/
structure Stage {q : Requirer} {limit : Nat} (modules : ModuleSet q limit)
    (matters : String → Prop) (stack done : List String) (s : Machine) : Prop where
  ready : Ready q s
  files : s.files = modules.files
  resolver : s.resolvers[q.resolver]? = some (modules.resolver stack)
  cached : ∀ n, matters n → (s.held q.cache n ≠ .nil ↔ n ∈ done)
  crosses : ∀ n, matters n → (s.held q.cache n).Crosses
  nesting : s.nesting = stack.length
  top : s.top ≤ callRoom * s.nesting

/-- What a part of a run does between two machines. -/
structure Leads {q : Requirer} {limit : Nat} (modules : ModuleSet q limit)
    (matters : String → Prop) (stack done started : List String) (s t : Machine) : Prop where
  stage : Stage modules matters stack done t
  steady : Steady q s t
  cells : KeepsCells s t
  kept : ∀ x, s.held q.cache x ≠ .nil → t.held q.cache x = s.held q.cache x
  loads : t.loads.toList = s.loads.toList ++ started

section

variable {q : Requirer} {limit : Nat} {modules : ModuleSet q limit} {matters : String → Prop}
  {stack done : List String} {s t u : Machine}

theorem Stage.quiet (stage : Stage modules matters stack done s) (quiet : Quiet q s t) :
    Stage modules matters stack done t where
  ready := stage.ready.onward quiet.toSteady
  files := quiet.files.trans stage.files
  resolver := by
    rw [quiet.resolvers]
    exact stage.resolver
  cached n matter := by
    rw [quiet.cached]
    exact stage.cached n matter
  crosses n matter := by
    rw [quiet.cached]
    exact stage.crosses n matter
  nesting := quiet.nesting.trans stage.nesting
  top := by
    rw [quiet.top, quiet.nesting]
    exact stage.top

theorem Stage.leads (stage : Stage modules matters stack done s) :
    Leads modules matters stack done [] s s :=
  ⟨stage, .refl q s, .refl s, fun _ _ => rfl, (List.append_nil _).symm⟩

/-- Wherever a body starts, it has room. -/
theorem Stage.roomy (stage : Stage modules matters stack done s) (short : stack.length < nestingLimit)
    (base : s.base ≤ callRoom * s.nesting) {depth : Nat}
    (deep : stackLimit ≤ depth + 2 * nestingLimit) : Roomy depth s := by
  have nesting : s.nesting < nestingLimit := stage.nesting ▸ short
  have most : callRoom * s.nesting ≤ callRoom * nestingLimit :=
    Nat.mul_le_mul_left _ (Nat.le_of_lt nesting)
  exact ⟨deep, nesting, Nat.le_trans base most, Nat.le_trans stage.top most⟩

/-- A quiet step may change the variables that came up on the way. -/
theorem Leads.quiet {started : List String} (leads : Leads modules matters stack done started s t)
    (quiet : Quiet q t u) (cells : KeepsCells s u) :
    Leads modules matters stack done started s u where
  stage := leads.stage.quiet quiet
  steady := leads.steady.trans quiet.toSteady
  cells := cells
  kept x there := (quiet.cached x).trans (leads.kept x there)
  loads := by rw [quiet.loads, leads.loads]

theorem Stage.lookup (stage : Stage modules matters stack done s) (n : String) :
    Leads modules matters stack done [] s (s.searched q.cache n) := by
  refine stage.leads.quiet (s.quiet_searched q.cache n q) ?_
  intro i v found
  rw [Machine.cells_searched]
  exact found

/-- A body that is about to run is logged. -/
theorem Leads.logged {started : List String} (leads : Leads modules matters stack done started s t)
    (n : String) :
    Leads modules matters stack done (started ++ [n]) s { t with loads := t.loads.push n } := by
  have stage := leads.stage
  have steady := leads.steady
  have relied : q.relies { t with loads := t.loads.push n } :=
    Requirer.kept_beside stage.ready.relies rfl rfl rfl rfl
  refine ⟨⟨⟨stage.ready.cache, stage.ready.apart, stage.ready.require, stage.ready.native, relied⟩,
    stage.files, stage.resolver, stage.cached, stage.crosses, stage.nesting, stage.top⟩,
    ⟨steady.globals, steady.files, steady.nesting, steady.resolvers, steady.base, steady.top,
      steady.tables, steady.functions, steady.require, fun _ => relied⟩, leads.cells, leads.kept, ?_⟩
  rw [Array.toList_push, leads.loads, List.append_assoc]

theorem Leads.trans {middle last started started' : List String}
    (first : Leads modules matters stack middle started s t)
    (second : Leads modules matters stack last started' t u) :
    Leads modules matters stack last (started ++ started') s u where
  stage := second.stage
  steady := first.steady.trans second.steady
  cells := first.cells.trans second.cells
  kept x there := by
    have same := first.kept x there
    rw [← same] at there ⊢
    exact second.kept x there
  loads := by rw [second.loads, first.loads, List.append_assoc]

/-! ## Names that are not loaded -/

namespace Resolver

variable {call : Caller} {n : String}

theorem cacheOf_stage (stage : Stage modules matters stack done s) :
    s.cacheOf q.resolver = some q.cache := by
  rw [Machine.cacheOf, stage.resolver]
  rfl

theorem require_finished (stage : Stage modules matters stack done s) (matter : matters n)
    (present : n ∈ done) :
    (require call q.resolver n).runOn s = (.ok (s.held q.cache n), s.searched q.cache n) := by
  rw [require_found (cacheOf_stage stage) ((stage.cached n matter).2 present),
    receive_of_crosses (stage.crosses n matter)]
  rfl

theorem require_absent (stage : Stage modules matters stack done s) (matter : matters n)
    (absent : n ∉ done) :
    (require call q.resolver n).runOn s =
      (loadOnce call q.resolver n >>= enterValue q.cache n).runOn (s.searched q.cache n) := by
  refine require_missed (cacheOf_stage stage) ?_
  by_contra there
  exact absent ((stage.cached n matter).1 there)

theorem require_cycle_error (stage : Stage modules matters stack done s) (matter : matters n)
    (absent : n ∉ done) (open_ : n ∈ stack) :
    (require call q.resolver n).runOn s = (.error (.error (.cycle n)), s.searched q.cache n) := by
  have later := stage.quiet (s.quiet_searched q.cache n q)
  have marked : n ∈ (s.searched q.cache n).marks q.resolver := by
    rw [Machine.marks, later.resolver]
    exact open_
  rw [require_absent stage matter absent, runOn_bind_stop (loadOnce_marked ⟨q.resolver, n⟩ marked)]

end Resolver

/-! ## One load -/

/-- The mark of a load goes when its resolver is as the load found it. -/
theorem Machine.resolvers_unmark {load : Load} (same : t.resolvers = (s.mark load).resolvers) :
    (t.unmark load).resolvers = s.resolvers := by
  refine Array.ext_getElem? fun i => ?_
  simp only [Machine.unmark, same, Machine.mark, Array.getElem?_modify]
  by_cases own : load.resolver = i
  · simp only [if_pos own]
    cases s.resolvers[i]? with
    | none => rfl
    | some x => simp
  · simp only [if_neg own]

theorem Machine.unmark_mark (s : Machine) (load : Load) : (s.mark load).unmark load = s := by
  have same : ((s.mark load).unmark load).resolvers = s.resolvers := Machine.resolvers_unmark rfl
  change { s with resolvers := ((s.mark load).unmark load).resolvers } = s
  rw [same]

/-- The machine on which a body of a module was read, in a resolver that has marked the name. -/
def Machine.prepared (s : Machine) (q : Requirer) (n path : String) (routine : Routine) : Machine :=
  Library.withBody { s.mark ⟨q.resolver, n⟩ with loads := s.loads.push n } routine
    (chunkText ("@" ++ path))

theorem Machine.closure_prepared (s : Machine) (q : Requirer) (n path : String)
    (routine : Routine) :
    (s.prepared q n path routine).functions[(⟨s.functions.size⟩ : FunctionId).index]? =
      some (.closure routine #[s.cells.size] (chunkText ("@" ++ path))) := Array.getElem?_push_size

/-- The machine on which the body then runs. -/
def Machine.atBody (s : Machine) (q : Requirer) (n path : String) (routine : Routine) : Machine :=
  Calls.entered (s.prepared q n path routine)
    (Calls.bodyFrame routine #[s.cells.size] (chunkText ("@" ++ path)) ⟨s.functions.size⟩ s.top)

/-- The machine after the body, in a resolver that has taken the mark away. -/
def Machine.afterBody (s : Machine) (q : Requirer) (n path : String) (routine : Routine)
    (t : Machine) : Machine :=
  (Calls.returned (s.prepared q n path routine) t).unmark ⟨q.resolver, n⟩

/-- A module whose text is read while others are in progress. -/
structure ModuleSet.Opens (modules : ModuleSet q limit) (stack : List String) (n : String)
    (needed : List String) (path source : String) (routine : Routine) : Prop where
  found : modules.index.get? n = some (.script path)
  text : modules.files.readText path = .ok source
  read : Routine.ofBytes source.toByteArray ["_ENV"] stack.length = .ok routine
  small : routine.slots ≤ Grammar.Layout.slotLimit
  level : stack.length + 1 < nestingLimit
  requires : routine.Requires q path n needed

theorem ModuleSet.exists_opens {n : String} {needed : List String}
    (found : modules.graph n = some needed) (inside : stack.length < limit)
    (level : stack.length + 1 < nestingLimit) :
    ∃ path source routine, modules.Opens stack n needed path source routine := by
  obtain ⟨path, source, indexed, text, body⟩ := modules.script n needed found
  obtain ⟨routine, read, small, requires⟩ := body stack.length inside
  exact ⟨path, source, routine, indexed, text, read, small, level, requires⟩

namespace Resolver

variable {n : String}

theorem runOn_load {call : Caller} (stage : Stage modules matters stack done s) (n : String) :
    (load call q.resolver n).runOn (s.mark ⟨q.resolver, n⟩) =
      (match modules.index.get? n with
      | some (.script path) => runFile call n path
      | some (.native path) => fail (.library path notALibrary)
      | none => fail (.notFound n) : ModuleM Value).runOn (s.mark ⟨q.resolver, n⟩) := by
  have found : (get q.resolver).runOn (s.mark ⟨q.resolver, n⟩) =
      (.ok (modules.resolver (n :: stack)), s.mark ⟨q.resolver, n⟩) := by
    rw [runOn_get, Machine.mark]
    simp [Array.getElem?_modify, stage.resolver, ModuleSet.resolver]
  rw [load, runOn_bind_ok found]
  rfl

theorem load_nowhere {call : Caller} (stage : Stage modules matters stack done s)
    (nowhere : modules.graph n = none) :
    (load call q.resolver n).runOn (s.mark ⟨q.resolver, n⟩) =
      (.error (.error (.notFound n)), s.mark ⟨q.resolver, n⟩) := by
  rw [runOn_load stage, modules.nowhere n nowhere]
  rfl

/-- The loader of a script module reads its file and then its text. -/
theorem load_file {call : Caller} {path source : String}
    (stage : Stage modules matters stack done s)
    (found : modules.index.get? n = some (.script path))
    (text : modules.files.readText path = .ok source) :
    (load call q.resolver n).runOn (s.mark ⟨q.resolver, n⟩) =
      (mapError (.load n) do
        let f ← Library.loadNamed ("@" ++ path) source.toByteArray
        return first (← callFor call f [.text n]) : ModuleM Value).runOn
          { s.mark ⟨q.resolver, n⟩ with loads := s.loads.push n } := by
  have file : (s.mark ⟨q.resolver, n⟩).files.readText path = .ok source := by
    rw [← text, ← stage.files]
    rfl
  rw [runOn_load stage, found]
  dsimp only
  rw [runFile, runOn_bind_ok (MachineM.runOn_get _), file]
  rfl

/-- A text that cannot be read inside the calls that are in progress is not run. -/
theorem load_tooDeep {call : Caller} {path source : String}
    (stage : Stage modules matters stack done s)
    (found : modules.index.get? n = some (.script path))
    (text : modules.files.readText path = .ok source)
    (deep : Routine.ofBytes source.toByteArray ["_ENV"] stack.length = .error .tooDeep) :
    (load call q.resolver n).runOn (s.mark ⟨q.resolver, n⟩) =
      (.error (.error (.load n (.runtime "C stack overflow"))),
        { s with loads := s.loads.push n }.mark ⟨q.resolver, n⟩) := by
  have stopped := Library.loadNamed_tooDeep (s := { s.mark ⟨q.resolver, n⟩ with loads := s.loads.push n })
    (Files.named_of_readText text) (by rw [← deep, ← stage.nesting]; rfl)
  rw [load_file stage found text, runOn_mapError, runOn_bind_stop stopped]
  rfl

variable {needed : List String} {path source : String} {routine : Routine} {depth : Nat}
  (stage : Stage modules matters stack done s)
  (opens : modules.Opens stack n needed path source routine)

include stage opens

/-- The loader of a script module reads its file and calls what it read. -/
theorem load_script (call : Caller) :
    (load call q.resolver n).runOn (s.mark ⟨q.resolver, n⟩) =
      (mapError (.load n) (do
        return first (← callFor call (.function ⟨s.functions.size⟩) [.text n])) :
          ModuleM Value).runOn (s.prepared q n path routine) := by
  have body : (Library.loadNamed ("@" ++ path) source.toByteArray).runOn
      { s.mark ⟨q.resolver, n⟩ with loads := s.loads.push n } =
        (.ok (.function ⟨s.functions.size⟩), s.prepared q n path routine) := by
    refine Library.loadNamed_ok (Files.named_of_readText opens.text) ?_
    rw [← opens.read, ← stage.nesting]
    rfl
  rw [load_file stage opens.found opens.text, runOn_mapError, runOn_mapError]
  exact congrArg (fun outcome => (outcome.1.mapError (Stop.map (ModuleError.load n)), outcome.2))
    (runOn_bind_ok body fun f => do
      return first (← callFor call f [.text n]))

theorem level_room : (s.prepared q n path routine).nesting + 1 < nestingLimit ∧
    (s.prepared q n path routine).top + 2 + routine.slots ≤ stackLimit := by
  have nesting : (s.prepared q n path routine).nesting = stack.length := stage.nesting
  have top : (s.prepared q n path routine).top ≤ callRoom * stack.length := by
    rw [← stage.nesting]
    exact stage.top
  have level := opens.level
  have small := opens.small
  simp only [nestingLimit, stackLimit, callRoom, Grammar.Layout.slotLimit] at *
  omega

theorem load_ok {start : Machine} {c : Completion}
    (run : (routine.moduleBody (Calls.callAt depth) path n s.cells.size).runOn
      (s.atBody q n path routine) = (.ok c, t))
    (finishes : Finishes (Calls.callAt depth) q n start c t) :
    ∃ v rest u, (load (Calls.callAt (depth + 1)) q.resolver n).runOn (s.mark ⟨q.resolver, n⟩) =
      (.ok v, Calls.returned (s.prepared q n path routine) u) ∧
        Finished q n start t u v rest := by
  obtain ⟨level, room⟩ := level_room stage opens
  have place : (s.prepared q n path routine).top ≤ callRoom * nestingLimit :=
    Nat.le_trans stage.top (Nat.mul_le_mul_left _ (Nat.le_of_lt (Nat.lt_of_succ_lt level)))
  obtain ⟨fuel, limit⟩ := Calls.turnLimit_pos
  obtain ⟨v, rest, u, ended, finished⟩ := finishes _ fuel _ place limit
  have only (more : Nat) (same : Evaluation.turnLimit = more + 1) : more = fuel :=
    Nat.succ.inj (same.symm.trans limit)
  have called := Calls.callAt_closure_ok depth rfl [.text n] (s.closure_prepared q n path routine)
    level room run fun more same => only more same ▸ ended
  refine ⟨v, rest, u, ?_, finished⟩
  rw [load_script stage opens, runOn_mapError, runOn_bind_ok (callFor_ok finished.crosses called)]
  rfl

theorem load_error {i : Nat} {e : ScriptError} (fault : t.faults[i]? = some (.error e))
    (run : (routine.moduleBody (Calls.callAt depth) path n s.cells.size).runOn
      (s.atBody q n path routine) = (.error (.error (.fault i)), t)) :
    (load (Calls.callAt (depth + 1)) q.resolver n).runOn (s.mark ⟨q.resolver, n⟩) =
      (.error (.error (.load n e)), Calls.returned (s.prepared q n path routine) t) := by
  obtain ⟨level, room⟩ := level_room stage opens
  have called := Calls.callAt_closure_stop depth rfl [.text n] (s.closure_prepared q n path routine)
    level room run
  rw [load_script stage opens, runOn_mapError, runOn_bind_stop (callFor_error called fault)]
  rfl

end Resolver

section

variable {n : String} {needed started : List String} {path source : String} {routine : Routine}
  (stage : Stage modules matters stack done s)
  (opens : modules.Opens stack n needed path source routine)

include stage opens

/-- The body of a module finds the machine as its load did, with the name in progress. -/
theorem Stage.atBody : Stage modules matters (n :: stack) done (s.atBody q n path routine) where
  ready := {
    cache := stage.ready.cache
    apart := stage.ready.apart
    require := stage.ready.require
    native := getElem?_push_of_some stage.ready.native _
    relies := q.kept _ _ stage.ready.relies (.of_tables rfl rfl
      (fun _ _ found => getElem?_push_of_some found _)
      fun _ _ found => getElem?_push_of_some found _) }
  files := stage.files
  resolver := by
    change (s.mark ⟨q.resolver, n⟩).resolvers[q.resolver]? = _
    simp [Machine.mark, Array.getElem?_modify, stage.resolver, ModuleSet.resolver]
  cached := stage.cached
  crosses := stage.crosses
  nesting := congrArg (· + 1) stage.nesting
  top := by
    have top := stage.top
    have small := opens.small
    have base := Calls.bodyFrame_base routine #[s.cells.size] (chunkText ("@" ++ path))
      ⟨s.functions.size⟩ s.top
    change (Calls.bodyFrame routine _ _ _ s.top).top ≤ callRoom * (s.nesting + 1)
    rw [Calls.bodyFrame_top]
    simp only [callRoom, Grammar.Layout.slotLimit] at *
    omega

omit stage opens in
theorem Machine.base_atBody (top : s.top ≤ callRoom * s.nesting) :
    (s.atBody q n path routine).base + 297 ≤ callRoom * (s.atBody q n path routine).nesting := by
  have base := Calls.bodyFrame_base routine #[s.cells.size] (chunkText ("@" ++ path))
    ⟨s.functions.size⟩ s.top
  change (Calls.bodyFrame routine _ _ _ s.top).base + 297 ≤ callRoom * (s.nesting + 1)
  simp only [callRoom] at *
  omega

/-- A body that starts there performs what its module requires. -/
theorem Stage.starts {depth : Nat} (deep : stackLimit ≤ depth + 2 * nestingLimit) :
    Performs (Calls.callAt depth) q n (s.atBody q n path routine) needed
      (routine.moduleBody (Calls.callAt depth) path n s.cells.size) (s.atBody q n path routine) := by
  have entered := stage.atBody opens
  have base : (s.atBody q n path routine).base + 297 ≤ _ := Machine.base_atBody stage.top
  have room := entered.roomy opens.level (Nat.le_of_add_right_le base) deep
  exact opens.requires depth _ _ room entered.ready Array.getElem?_push_size

omit stage opens in
/-- After a body the machine is as its load found it, but for what the body itself led to. -/
theorem Leads.afterBody {last : List String} (stage : Stage modules matters stack last s)
    (leads : Leads modules matters (n :: stack) done started (s.atBody q n path routine) t) :
    Leads modules matters stack done (n :: started) s (s.afterBody q n path routine t) := by
  have resolvers : (s.afterBody q n path routine t).resolvers = s.resolvers :=
    Machine.resolvers_unmark (t := Calls.returned (s.prepared q n path routine) t)
      leads.steady.resolvers
  have functions (i : Nat) (f : Function) (found : s.functions[i]? = some f) :
      t.functions[i]? = some f :=
    leads.steady.functions i f (getElem?_push_of_some found _)
  have cells : KeepsCells s t := fun i v found =>
    leads.cells i v (getElem?_push_of_some found _)
  have later := leads.stage
  have relied : q.relies (s.afterBody q n path routine t) :=
    Requirer.kept_beside later.ready.relies rfl rfl rfl rfl
  refine ⟨⟨⟨later.ready.cache, later.ready.apart, later.ready.require, later.ready.native, relied⟩,
    later.files, ?_, later.cached, later.crosses, stage.nesting, stage.top⟩,
    ⟨leads.steady.globals, leads.steady.files, rfl, resolvers, rfl, rfl, leads.steady.tables,
      functions, leads.steady.require, fun _ => relied⟩, cells, leads.kept, ?_⟩
  · rw [resolvers, stage.resolver]
  · change t.loads.toList = _
    rw [leads.loads]
    change (s.loads.push n).toList ++ started = _
    simp

end

/-! ## Names that are loaded -/

/-- A value that is entered in the cache finishes its name. -/
theorem Leads.entering {n : String} {started : List String} {v : Value}
    (leads : Leads modules matters stack done started s t) (matter : matters n)
    (absent : n ∉ done) (present : v ≠ .nil) (crosses : v.Crosses)
    (relied : q.relies (t.entering q.cache n v)) :
    Leads modules matters stack (n :: done) started s (t.entering q.cache n v) := by
  have stage := leads.stage
  have apart : q.cache.index ≠ t.globals.index := fun same => stage.ready.apart same.symm
  have held (x : String) := Machine.held_entering stage.ready.cache n x v
  have globals := Machine.held_entering_other apart t n "require" v
  have size : (t.entering q.cache n v).tables.size = t.tables.size := Array.size_modify
  have entered : Stage modules matters stack (n :: done) (t.entering q.cache n v) := by
    refine ⟨⟨?_, stage.ready.apart, globals.trans stage.ready.require, stage.ready.native, relied⟩,
      stage.files, stage.resolver, ?_, ?_, stage.nesting, stage.top⟩
    · rw [size]
      exact stage.ready.cache
    · intro x matter
      rw [held, List.mem_cons]
      split
      · next same => exact ⟨fun _ => .inl same, fun _ => present⟩
      · next other => rw [stage.cached x matter, or_iff_right other]
    · intro x matter
      rw [held]
      split
      · exact crosses
      · exact stage.crosses x matter
  have steady := leads.steady
  refine ⟨entered, ⟨steady.globals, steady.files, steady.nesting, steady.resolvers, steady.base,
    steady.top, ?_, steady.functions, globals.trans steady.require, fun _ => relied⟩, leads.cells,
    ?_, leads.loads⟩
  · rw [size]
    exact steady.tables
  · intro x there
    rw [held]
    split
    · next same =>
      subst same
      rw [← leads.kept x there] at there
      exact absurd ((stage.cached x matter).1 there) absent
    · exact leads.kept x there

namespace Resolver

variable {call : Caller} {n : String}

theorem loadOnce_ok {v : Value} (load : Load) (free : load.name ∉ s.marks load.resolver)
    (run : (Resolver.load call load.resolver load.name).runOn (s.mark load) = (.ok v, t)) :
    (loadOnce call load.resolver load.name).runOn s = (.ok v, t.unmark load) := by
  rw [loadOnce_free load free, run]
  rfl

theorem loadOnce_error {e : ModuleError} (load : Load) (free : load.name ∉ s.marks load.resolver)
    (run : (Resolver.load call load.resolver load.name).runOn (s.mark load) =
      (.error (.error e), t)) :
    (loadOnce call load.resolver load.name).runOn s = (.error (.error e), t.unmark load) := by
  rw [loadOnce_free load free, run]
  rfl

variable (stage : Stage modules matters stack done s) (matter : matters n) (absent : n ∉ done)
  (closed : n ∉ stack)

include stage matter absent closed

omit matter absent in
theorem free_searched : n ∉ (s.searched q.cache n).marks q.resolver := by
  rw [Machine.marks, (stage.quiet (s.quiet_searched q.cache n q)).resolver]
  exact closed

theorem require_ok {v : Value} (present : v ≠ .nil) (crosses : v.Crosses)
    (run : (load call q.resolver n).runOn ((s.searched q.cache n).mark ⟨q.resolver, n⟩) =
      (.ok v, t)) :
    (require call q.resolver n).runOn s =
      (.ok v, (t.unmark ⟨q.resolver, n⟩).entering q.cache n v) := by
  rw [require_absent stage matter absent,
    runOn_bind_ok (loadOnce_ok ⟨q.resolver, n⟩ (free_searched stage closed) run),
    enterValue_present present, send_of_crosses crosses]
  rfl

theorem require_error {e : ModuleError}
    (run : (load call q.resolver n).runOn ((s.searched q.cache n).mark ⟨q.resolver, n⟩) =
      (.error (.error e), t)) :
    (require call q.resolver n).runOn s = (.error (.error e), t.unmark ⟨q.resolver, n⟩) := by
  rw [require_absent stage matter absent,
    runOn_bind_stop (loadOnce_error ⟨q.resolver, n⟩ (free_searched stage closed) run)]

end Resolver

end

end ScriptHost
