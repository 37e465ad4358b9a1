import ScriptHost.Proofs.Evictions

/-!
# Lookups that run scripts

Where a table has nothing under a name, a function of its metatable is asked.  It may do anything: if
the cache of modules is found through one, clearing up after a compilation may enter again what it
has cleared.
-/

namespace ScriptHost

open MachineM ScriptM

/-! ## Functions in metatables -/

namespace ScriptM

variable {call : Caller} {s : Machine} {id fields : TableId} {name : String}

theorem runOn_metamethod_of_some (event : String)
    (metatable : (s.tables[id.index]?.getD default).metatable = some fields) :
    (metamethod (.table id) event).runOn s =
      (.ok (s.held fields ("__" ++ event)), s.searched fields ("__" ++ event)) := by
  rw [metamethod, ScriptM.metatable, runOn_bind_ok (runOn_bind_ok (runOn_table id s) _), metatable]
  exact runOn_lookup fields _ s

/-- What a table does not have, a function in its metatable is called for. -/
theorem runOn_index_function {origin : Origin} {f : FunctionId} (missing : s.held id name = .nil)
    (metatable : (s.tables[id.index]?.getD default).metatable = some fields)
    (event : s.held fields "__index" = .function f) :
    (index call origin (.table id) (.text name)).runOn s =
      (call (metaSite "index") (.function f) [.table id, .text name] >>= fun values =>
        pure (first values)).runOn ((s.searched id name).searched fields "__index") := by
  obtain ⟨fuel, limit⟩ := chainLimit_pos
  have found : (metamethod (.table id) "index").runOn (s.searched id name) = _ :=
    runOn_metamethod_of_some "index" ((s.metatable_searched id name id).trans metatable)
  rw [index, limit, indexFrom]
  dsimp only
  rw [runOn_bind_ok (runOn_lookup id name s), missing, if_neg (by decide), runOn_bind_ok found,
    Machine.held_searched, show "__" ++ "index" = "__index" from rfl, event]
  rfl

end ScriptM

/-! ## A function that sets a global variable -/

/-- A function without parameters that sets a global variable to true. -/
def Routine.setting (name : String) : Routine :=
  .mk 0 false [.assign [.index (.variable (.outer 0 "_ENV")) (.text name.toByteArray) 0]
    [.bool true] 1] [.outer 0 "_ENV"] 2

namespace Evaluation

variable {s : Machine} {cell : Nat}

/-- Where a global variable is: its table is read now or when the variable is set. -/
theorem placeOf_global (call : Caller) (scope : Scope) (name : String)
    (env : s.cells[scope.cellOf (.outer 0 "_ENV")]? = some (.table s.globals)) :
    ∃ subject origin, (placeOf call scope (.index (.variable (.outer 0 "_ENV"))
        (.text name.toByteArray) 0)).runOn s =
          (.ok (.entry subject (.value (.text name)) origin), s) ∧
      ∀ frames, (read subject).runOn { s with frames := frames } =
        (.ok (.table s.globals), { s with frames := frames }) := by
  have known (frames : List Frame) : (MachineM.cell (scope.cellOf (.outer 0 "_ENV")) :
      ScriptM Value).runOn { s with frames } = (.ok (.table s.globals), { s with frames }) := by
    rw [MachineM.cell, runOn_bind_ok (runOn_get _), env]
    rfl
  have subject : subjectOf call scope (.variable (.outer 0 "_ENV")) =
      pure (.cell (scope.cellOf (.outer 0 "_ENV"))) := by
    rw [subjectOf]
  have key : operandOf call scope (.text name.toByteArray) = pure (.value (.text name)) := by
    rw [operandOf, value]
    · rfl
    · exact fun _ _ same => by cases same
  rw [placeOf, subject, key]
  simp only [pure_bind]
  -- a short name is kept with the variable that holds the globals, a long one with their table
  split
  · exact ⟨.cell _, _, rfl, known⟩
  · have settled : (settle (.cell (scope.cellOf (.outer 0 "_ENV")))).runOn s =
        (.ok (.value (.table s.globals)), s) := runOn_bind_ok (known s.frames) _
    exact ⟨.value (.table s.globals), _, runOn_bind_ok settled _, fun _ => rfl⟩

/-- The function sets the variable in the table of globals. -/
theorem runOn_apply_setting (call : Caller) (name : String) (chunk : ByteArray) (args : List Value)
    (env : s.cells[cell]? = some (.table s.globals)) (unaided : s.Unaided s.globals name) :
    ∃ frames, (apply call (.setting name) #[cell] chunk args).runOn s = (.ok (.values []),
      (({ s with frames := frames } : Machine).searched s.globals name).entering s.globals name
        (.bool true)) := by
  obtain ⟨frames, line⟩ : ∃ frames, s.atLine 1 = { s with frames := frames } := ⟨_, s.atLine_eq 1⟩
  let scope : Scope := { outer := #[cell], chunk }
  obtain ⟨subject, origin, place, table⟩ := placeOf_global call scope name env
  have stored : (ScriptM.store call origin (.table s.globals) (.text name) (.bool true)).runOn
      { s with frames } = _ := runOn_store unaided
  have assigned : (exec call scope (.assign [.index (.variable (.outer 0 "_ENV"))
      (.text name.toByteArray) 0] [.bool true] 1)).runOn s = (.ok (.done scope),
        (({ s with frames := frames } : Machine).searched s.globals name).entering s.globals name
          (.bool true)) := by
    rw [exec, runOn_bind_ok place, value, pure_bind, runOn_bind_ok (runOn_setLine 1 s), line]
    have assigns : (assign call (.entry subject (.value (.text name)) origin) (.bool true)).runOn
        { s with frames } = _ := (runOn_bind_ok (table frames) _).trans stored
    rw [runOn_bind_ok assigns]
    rfl
  have same : apply call (.setting name) #[cell] chunk args =
      (run call scope (Routine.setting name).body >>= Ending.completion) := rfl
  refine ⟨frames, ?_⟩
  rw [same, Routine.setting, Routine.body, run, bind_assoc, runOn_bind_ok assigned]
  rfl

end Evaluation

namespace Machine

/-- Machines with the same tables, functions and variables, but for one global variable. -/
structure SameBut (name : String) (s t : Machine) : Prop extends s.Keeps t where
  held : ∀ id x, id ≠ s.globals ∨ x ≠ name → t.held id x = s.held id x
  metatables : s.KeepsMetatables t
  functions : t.functions = s.functions
  cells : t.cells = s.cells
  frames : t.frames = s.frames
  nesting : t.nesting = s.nesting

namespace SameBut

variable {name : String} {s t u : Machine}

theorem refl (name : String) (s : Machine) : SameBut name s s :=
  ⟨.refl s, fun _ _ _ => rfl, fun _ => rfl, rfl, rfl, rfl, rfl⟩

theorem trans (first : SameBut name s t) (second : SameBut name t u) : SameBut name s u where
  toKeeps := first.toKeeps.trans second.toKeeps
  held id x other := (second.held id x (first.globals ▸ other)).trans (first.held id x other)
  metatables := first.metatables.trans second.metatables
  functions := second.functions.trans first.functions
  cells := second.cells.trans first.cells
  frames := second.frames.trans first.frames
  nesting := second.nesting.trans first.nesting

theorem symm (same : SameBut name s t) : SameBut name t s where
  toKeeps := same.toKeeps.symm
  held id x other := (same.held id x (same.globals ▸ other)).symm
  metatables id := (same.metatables id).symm
  functions := same.functions.symm
  cells := same.cells.symm
  frames := same.frames.symm
  nesting := same.nesting.symm

theorem searched (name : String) (s : Machine) (id : TableId) (x : String) :
    SameBut name s (s.searched id x) where
  toKeeps := (Resembles.searched s id x).toKeeps
  held other y _ := held_searched s id x other y
  metatables other := metatable_searched s id x other
  functions := s.functions_searched id x
  cells := s.cells_searched id x
  frames := s.frames_searched id x
  nesting := s.nesting_searched id x

theorem entering (name : String) (s : Machine) (v : Value) :
    SameBut name s (s.entering s.globals name v) where
  toKeeps := entering_keeps s s.globals name v
  held id x other := by
    rcases held_entering_or s s.globals id name x v with same | ⟨rfl, -⟩
    · exact same
    · refine held_entering_other (fun same => ?_) s x x v
      cases id
      exact other.elim (fun apart => apart (congrArg TableId.mk same.symm)) fun apart => apart rfl
  metatables := entering_keepsMetatables s s.globals name v
  functions := rfl
  cells := rfl
  frames := rfl
  nesting := rfl

theorem isWeak (same : SameBut name s t) (other : name ≠ "__mode") {id : TableId}
    (weak : t.IsWeak id) : s.IsWeak id := by
  obtain ⟨fields, bytes, metatable, mode, asks⟩ := weak
  refine ⟨fields, bytes, (same.metatables id).symm.trans metatable, ?_, asks⟩
  rw [← same.held fields "__mode" (.inr other.symm), mode]

/-- What comes after a call does not see its frame. -/
theorem returned {frame : Frame} {frames : List Frame}
    (same : SameBut name { Calls.entered s frame with frames := frames } t) :
    SameBut name s (Calls.returned s t) :=
  { same with frames := rfl, nesting := rfl }

end SameBut

end Machine

/-- The function sets the variable when it is called from outside of script functions. -/
theorem Calls.call_setting {f : FunctionId} {cell : Nat} {chunk : ByteArray} {name : String}
    {s : Machine} (site : CallSite) (outside : site.slot = none) (args : List Value)
    (closure : s.functions[f.index]? = some (.closure (.setting name) #[cell] chunk))
    (env : s.cells[cell]? = some (.table s.globals)) (known : s.globals.index < s.tables.size)
    (unaided : s.Unaided s.globals name) (level : s.nesting + 1 < nestingLimit)
    (room : s.top + 1 + args.length + 2 ≤ stackLimit) :
    ∃ t, (call site (.function f) args).runOn s = (.ok [], t) ∧ s.SameBut name t ∧
      t.held s.globals name = .bool true := by
  obtain ⟨depth, deep⟩ := stackLimit_pos
  let frame := frameOf (.closure (.setting name) #[cell] chunk) site f s.top args.length
  -- only the line that the function reaches changes in its frame, which the call drops in the end
  obtain ⟨frames, run⟩ := Evaluation.runOn_apply_setting (s := entered s frame) (callAt depth) name
    chunk args env unaided
  let body : Machine := { entered s frame with frames := frames }
  refine ⟨returned s ((body.searched s.globals name).entering s.globals name (.bool true)), ?_, ?_,
    ?_⟩
  · rw [call, deep]
    exact callAt_closure_ok depth outside args closure level room run fun _ _ => rfl
  · have looked := Machine.SameBut.searched name body s.globals name
    have set_ := Machine.SameBut.entering name (body.searched s.globals name) (.bool true)
    rw [looked.globals] at set_
    exact (looked.trans set_).returned
  · have inside : s.globals.index < (body.searched s.globals name).tables.size := by
      rw [Machine.size_tables_searched]
      exact known
    exact (Machine.held_entering inside name name (.bool true)).trans (if_pos rfl)

namespace Dialect

open Machine

/-! ## A cache that is found through a function -/

/-- A function in the metatable of `package` that sets the source when the cache is looked up. -/
structure Meddler where
  package : TableId
  fields : TableId
  function : FunctionId
  cell : Nat
  chunk : ByteArray

/-- A machine without a resolver on which the lookup of the cache asks such a function. -/
structure Meddles (m : Meddler) (s : Machine) : Prop where
  installed : s.installed = none
  plain : (s.tables[s.globals.index]?.getD default).metatable = none
  packaged : s.held s.globals "package" = .table m.package
  missing : s.held m.package "loaded" = .nil
  metatable : (s.tables[m.package.index]?.getD default).metatable = some m.fields
  event : s.held m.fields "__index" = .function m.function
  closure : s.functions[m.function.index]? =
    some (.closure (.setting sourceVariable) #[m.cell] m.chunk)
  env : s.cells[m.cell]? = some (.table s.globals)
  level : s.nesting + 1 < nestingLimit
  room : s.top + 5 ≤ stackLimit

namespace Meddles

variable {m : Meddler} {s t : Machine}

theorem onward (meddles : Meddles m s) (same : s.SameBut sourceVariable t) : Meddles m t where
  installed := same.installed.trans meddles.installed
  plain := by rw [same.globals, same.metatables, meddles.plain]
  packaged := by rw [same.globals, same.held _ _ (.inr (by decide)), meddles.packaged]
  missing := by rw [same.held _ _ (.inr (by decide)), meddles.missing]
  metatable := by rw [same.metatables, meddles.metatable]
  event := by rw [same.held _ _ (.inr (by decide)), meddles.event]
  closure := by rw [same.functions, meddles.closure]
  env := by rw [same.cells, same.globals, meddles.env]
  level := by
    rw [same.nesting]
    exact meddles.level
  room := by
    rw [top, same.frames]
    exact meddles.room

theorem globals_lt (meddles : Meddles m s) : s.globals.index < s.tables.size := by
  by_contra beyond
  cases meddles.packaged.symm.trans (held_eq_nil_of_le (Nat.le_of_not_lt beyond) "package")

/-- The lookup of the cache finds nothing, and sets the source. -/
theorem indexFor_loaded (meddles : Meddles m s) :
    ∃ t, (indexFor call (.table m.package) (.text "loaded")).runOn s = (.ok .nil, t) ∧
      s.SameBut sourceVariable t ∧ t.held s.globals sourceVariable = .bool true := by
  have looked : s.SameBut sourceVariable
      ((s.searched m.package "loaded").searched m.fields "__index") :=
    (SameBut.searched ..).trans (.searched ..)
  have still := meddles.onward looked
  obtain ⟨t, run, same, set_⟩ := Calls.call_setting (metaSite "index") rfl
    [.table m.package, .text "loaded"] still.closure still.env still.globals_lt
    (fun _ => still.plain) still.level still.room
  have found : (index call {} (.table m.package) (.text "loaded")).runOn s = (.ok .nil, t) := by
    rw [runOn_index_function meddles.missing meddles.metatable meddles.event, runOn_bind_ok run]
    rfl
  refine ⟨t, ?_, looked.trans same, looked.globals ▸ set_⟩
  rw [runOn_indexFor_of_index found]
  rfl

/-- So no module can be forgotten. -/
theorem runOn_evict (meddles : Meddles m s) (name : String) :
    ∃ t, (evict name).runOn s = (.ok (), t) ∧ s.SameBut sourceVariable t ∧
      t.held s.globals sourceVariable = .bool true := by
  have looked := SameBut.searched sourceVariable s s.globals "package"
  have packaged : (globalFor call "package").runOn s =
      (.ok (.table m.package), s.searched s.globals "package") :=
    runOn_globalFor_held meddles.packaged (fun same => by cases same) fun _ same => by cases same
  obtain ⟨t, run, same, set_⟩ := (meddles.onward looked).indexFor_loaded
  obtain ⟨e, refused⟩ := expectTable_refused (v := .nil) (fun _ same => by cases same) t
  have fails : (forget name).runOn s = (.error (.error e), t) := by
    rw [forget, runOn_bind_ok (runOn_get s), meddles.installed]
    dsimp only
    rw [runOn_bind_ok packaged]
    dsimp only
    rw [runOn_bind_ok (runOn_expectTable m.package _), runOn_bind_ok run, runOn_bind_stop refused]
  refine ⟨t, ?_, looked.trans same, looked.globals ▸ set_⟩
  rw [Dialect.runOn_evict, fails]

/-- What one eviction does, the next one does again. -/
theorem runOn_evict_all (meddles : Meddles m s) (names : List String)
    (set_ : s.held s.globals sourceVariable = .bool true) :
    ∃ t, (names.forM evict).runOn s = (.ok (), t) ∧ s.SameBut sourceVariable t ∧
      t.held s.globals sourceVariable = .bool true := by
  induction names generalizing s with
  | nil => exact ⟨s, rfl, .refl _ s, set_⟩
  | cons name rest ih =>
    obtain ⟨t, first, same, set_⟩ := meddles.runOn_evict name
    obtain ⟨u, more, also, again⟩ := ih (meddles.onward same) (same.globals.symm ▸ set_)
    refine ⟨u, ?_, same.trans also, same.globals ▸ again⟩
    rw [List.forM, runOn_bind_ok first, more]

end Meddles

end Dialect

end ScriptHost
