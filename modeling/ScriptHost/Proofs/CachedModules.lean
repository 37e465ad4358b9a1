import ScriptHost.Bridge.Guest
import ScriptHost.Proofs.Growth
import ScriptHost.Proofs.Installation

/-!
# Modules that a guest has

A guest that has a module in its cache gives the table there when the module is required.  That
takes two lookups, which change nothing of what tables hold.
-/

namespace ScriptHost

open MachineM

theorem Table.live_touch (t : Table) (key : Value) : (t.touch key).live = t.live := by
  unfold touch
  split
  · split
    · rfl
    · rfl
  · rfl

namespace Machine

/-- A lookup changes nothing of what tables hold. -/
theorem pairsOf_searched (s : Machine) (id : TableId) (name : String) (other : TableId) :
    (s.searched id name).pairsOf other = s.pairsOf other := by
  unfold searched
  split
  · simp only [pairsOf, Array.getElem?_modify]
    split
    · cases s.tables[other.index]? with
      | none => rfl
      | some table => simp only [Option.map_some, Option.getD_some, Table.live_touch]
    · rfl
  · rfl

/-- A lookup does not depend on the calls in progress. -/
theorem searched_frames (s : Machine) (id : TableId) (name : String) (frames : List Frame) :
    ({ s with frames } : Machine).searched id name = { s.searched id name with frames } := by
  unfold searched
  split
  · rfl
  · rfl

theorem searched_nesting (s : Machine) (id : TableId) (name : String) (nesting : Nat) :
    ({ s with nesting } : Machine).searched id name = { s.searched id name with nesting } := by
  unfold searched
  split
  · rfl
  · rfl

end Machine

namespace Guest

variable {s : Machine} {module : String} {root : TableId} {id : FunctionId}

/-- A module in the cache is found there. -/
theorem runOn_require (call : Caller) (cached : s.held s.loaded module = .table root) :
    (Library.require call [.text module]).runOn s =
      (.ok [.table root], s.searched s.loaded module) := by
  have named : (Library.checkBytes [.text module] 1).runOn s = (.ok module.toByteArray, s) := rfl
  have found : (rawGet s.loaded (.str module.toByteArray) : ScriptM Value).runOn s =
      (.ok (.table root), s.searched s.loaded module) := by
    rw [← cached]
    exact runOn_lookup s.loaded module s
  rw [Library.require, runOn_bind_ok named, runOn_bind_ok (runOn_get s), runOn_bind_ok found]
  rfl

theorem enter_require (call : Caller) {start : Nat} (fuel : Nat)
    (standard : s.functions[id.index]? = some (.native (.standard .require)))
    (cached : s.held s.loaded module = .table root) (room : start + 22 ≤ ScriptM.stackLimit) :
    (Calls.enter call start (fuel + 1) {} id [.text module]).runOn s =
      (.ok [.table root], s.searched s.loaded module) := by
  have enough : start + 1 + [Value.text module].length +
      Calls.slotsOf (.native (.standard .require)) ≤ ScriptM.stackLimit := room
  have inner (frames : List Frame) : (Calls.native call (.standard .require)
      [.text module]).runOn { s with frames } =
        (.ok [.table root], { s.searched s.loaded module with frames }) := by
    rw [← Machine.searched_frames]
    exact runOn_require (s := { s with frames }) call cached
  unfold Calls.enter
  rw [runOn_bind_ok (ScriptM.runOn_function standard),
    runOn_bind_ok (ScriptM.runOn_checkRoom s enough)]
  dsimp only
  rw [ScriptM.runOn_inFrame, inner]
  dsimp only
  rw [← Machine.frames_searched s s.loaded module]

/-- The host calls the interpreter's own `require` for a module in the cache. -/
theorem call_require (standard : s.functions[id.index]? = some (.native (.standard .require)))
    (cached : s.held s.loaded module = .table root)
    (level : s.nesting + 1 < ScriptM.nestingLimit) (room : s.top + 22 ≤ ScriptM.stackLimit) :
    (call {} (.function id) [.text module]).runOn s =
      (.ok [.table root], s.searched s.loaded module) := by
  obtain ⟨depth, deep⟩ := Calls.stackLimit_pos
  obtain ⟨fuel, limit⟩ := Calls.turnLimit_pos
  have called (u : Machine) : (ScriptM.callable {} ScriptM.stackLimit (.function id)
      [.text module]).runOn u = (.ok (id, [.text module]), u) := by
    unfold ScriptM.callable
    rfl
  have direct : call {} = Calls.callAt (depth + 1) {} := by rw [call, deep]
  have entered := enter_require (s := { s with nesting := s.nesting + 1 }) (Calls.callAt depth)
    fuel standard cached room
  rw [direct, Calls.callAt, if_neg (by decide), ScriptM.runOn_nested _ level,
    runOn_bind_ok (called _)]
  dsimp only
  rw [runOn_bind_ok (ScriptM.runOn_startOf_outside rfl _), limit]
  refine (congrArg (fun outcome => (outcome.1, ({ outcome.2 with nesting := s.nesting } :
    Machine))) entered).trans ?_
  rw [Machine.searched_nesting]
  dsimp only
  rw [← Machine.nesting_searched s s.loaded module]

/-- A guest that has a module in its cache has it as the table there. -/
theorem runOn_moduleValue (required : s.held s.globals "require" = .function id)
    (standard : s.functions[id.index]? = some (.native (.standard .require)))
    (cached : s.held s.loaded module = .table root)
    (level : s.nesting + 1 < ScriptM.nestingLimit) (room : s.top + 22 ≤ ScriptM.stackLimit) :
    (moduleValue call module).runOn s =
      (.ok (.table root), (s.searched s.globals "require").searched s.loaded module) := by
  let t := s.searched s.globals "require"
  have same : t.loaded = s.loaded := by
    obtain ⟨tables, -, same⟩ := s.searched_eq s.globals "require"
    simp only [t, same]
  have top : t.top = s.top := by rw [Machine.top, Machine.frames_searched, Machine.top]
  have global : (ScriptM.globalFor call "require").runOn s = (.ok (.function id), t) := by
    rw [ScriptM.globalFor, runOn_bind_ok (runOn_get s)]
    exact ScriptM.runOn_indexFor required (fun same => by cases same) fun _ same => by cases same
  have first : (scripted (do Published.expectFunction (← ScriptM.globalFor call "require"))).runOn
      s = (.ok (.function id), t) := by
    rw [scripted, runOn_mapError, runOn_bind_ok global]
    rfl
  have called := call_require (s := t) (by rwa [Machine.functions_searched])
    (by rwa [Machine.held_searched, same]) (by rwa [Machine.nesting_searched]) (by rwa [top])
  have result : (ScriptM.firstFor call (.function id) [.text module]).runOn t =
      (.ok (.table root), t.searched s.loaded module) := by
    rw [ScriptM.firstFor, ScriptM.runFor, ScriptM.mapM_send_text, pure_bind,
      runOn_bind_ok (ScriptM.runOn_protect called), same]
    rfl
  rw [moduleValue, runOn_bind_ok first]
  have passed : (mapError (.call s!"require({module})")
      (ScriptM.firstFor call (.function id) [.text module]) : BridgeM Value).runOn t =
        (.ok (.table root), t.searched s.loaded module) := by
    rw [runOn_mapError, result]
    rfl
  rw [runOn_bind_ok passed]
  rfl

/-- Requiring a module in the cache is no more for the guest than two lookups. -/
theorem within_moduleValue (functions : List Value)
    (required : s.held s.globals "require" = .function id)
    (standard : s.functions[id.index]? = some (.native (.standard .require)))
    (cached : s.held s.loaded module = .table root)
    (level : s.nesting + 1 < ScriptM.nestingLimit) (room : s.top + 22 ≤ ScriptM.stackLimit) :
    (⟨s, functions⟩ : Guest).within (moduleValue call module) =
      (.ok (.table root), ⟨(s.searched s.globals "require").searched s.loaded module, functions⟩) :=
  congrArg (fun outcome => (outcome.1, (⟨outcome.2, functions⟩ : Guest)))
    (runOn_moduleValue required standard cached level room)

end Guest

end ScriptHost
