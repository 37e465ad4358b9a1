import ScriptHost.Proofs.NewTables

/-!
# Programs of modules

The plainest body of a module has one call statement for each name that it requires and returns a
constant or a new object, for which it calls the function `setmetatable`.  Whatever the other calls
do, such a body requires its names in order and then returns.
-/

namespace ScriptHost

open MachineM ScriptM

namespace Expr

/-- Constants that are not nil, which may stand in parentheses. -/
def isConstant : Expr → Bool
  | .bool _ => true
  | .number _ => true
  | .text _ => true
  | .paren inner => inner.isConstant
  | _ => false

end Expr

namespace Stmt

/-- Whether a statement calls the global `require` with a name. -/
def requires (name : String) : Stmt → Bool
  | .call (.call (.index (.variable (.outer 0 _)) (.text key) _) [.text text] _ slot) =>
    decide (Value.str key = .text "require" ∧ Value.str text = .text name ∧
      slot ≤ Grammar.Layout.slotLimit)
  | _ => false

/-- Whether a statement returns a constant or an object without fields. -/
def ends : Stmt → Bool
  | .result [e] => e.isConstant
  | .handOver (.call (.index (.variable (.outer 0 _)) (.text key) _) [.table [] _ _, .table [] _ _] _
      slot) =>
    decide (Value.str key = .text "setmetatable" ∧ slot ≤ Grammar.Layout.slotLimit)
  | _ => false

end Stmt

/-- Whether statements require names in order and then return. -/
def isModuleBody : List String → List Stmt → Bool
  | [], [s] => s.ends
  | name :: names, s :: rest => s.requires name && isModuleBody names rest
  | _, _ => false

/-- Whether a routine is the plainest body that requires names. -/
def Routine.isModule (names : List String) (routine : Routine) : Bool :=
  decide (routine.parameters = 0 ∧ routine.slots ≤ Grammar.Layout.slotLimit) &&
    isModuleBody names routine.body

/-! ## Steps -/

section

variable {q : Requirer} {s t : Machine}

theorem ScriptM.chainLimit_pos : ∃ fuel, chainLimit = fuel + 1 :=
  Nat.exists_eq_succ_of_ne_zero (by decide)

/-- A lookup of a variable that is set needs no metatable. -/
theorem ScriptM.runOn_index {call : Caller} {origin : Origin} {id : TableId} {name : String}
    (present : s.held id name ≠ .nil) :
    (index call origin (.table id) (.text name)).runOn s =
      (.ok (s.held id name), s.searched id name) := by
  obtain ⟨fuel, limit⟩ := chainLimit_pos
  rw [index, limit, indexFrom]
  dsimp only
  rw [runOn_bind_ok (runOn_lookup id name s), Value.isNil_eq_false present]
  rfl

namespace Evaluation

variable {call : Caller} {scope : Scope} {cell : Nat} {chunk : ByteArray}

theorem value_constant (call : Caller) (scope : Scope) {e : Expr} (constant : e.isConstant = true) :
    ∃ v : Value, v ≠ .nil ∧ v.Crosses ∧ value call scope e = pure v := by
  induction e using Expr.isConstant.induct with
  | case1 b => exact ⟨.bool b, by simp, by simp [Value.Crosses], by rw [value]⟩
  | case2 n =>
    cases n with
    | integer i => exact ⟨.int i, by simp, by simp [Value.Crosses], by rw [value]; rfl⟩
    | float x => exact ⟨.float x, by simp, by simp [Value.Crosses], by rw [value]; rfl⟩
  | case3 bytes => exact ⟨.str bytes, by simp, by simp [Value.Crosses], by rw [value]⟩
  | case4 inner ih =>
    rw [value]
    exact ih constant
  | case5 e bool number text paren =>
    rw [Expr.isConstant] at constant
    · cases constant
    · exact bool
    · exact number
    · exact text
    · exact paren

/-- The one value of a constant. -/
theorem values_constant (call : Caller) (scope : Scope) {e : Expr} (constant : e.isConstant = true) :
    ∃ v : Value, v ≠ .nil ∧ v.Crosses ∧ values call scope e = pure [v] := by
  obtain ⟨v, present, crosses, same⟩ := value_constant call scope constant
  refine ⟨v, present, crosses, ?_⟩
  have single : values call scope e = (return [← value call scope e]) := by
    cases e with
    | bool | number | text | paren => rw [values] <;> simp
    | _ => cases constant
  rw [single, same]
  rfl

/-- A body reads a variable that is set from its globals. -/
theorem value_global (call : Caller) {key : String} (present : s.held s.globals key ≠ .nil)
    (globals : s.cells[scope.outer[0]?.getD 0]? = some (.table s.globals)) (name : String)
    (line : Nat) :
    (value call scope (.index (.variable (.outer 0 name)) (.text key.toByteArray) line)).runOn s =
      (.ok (s.held s.globals key), (s.atLine line).searched s.globals key) := by
  have held : (s.atLine line).held s.globals key = s.held s.globals key := by
    rw [Machine.held, Machine.held, s.tables_atLine]
  have variable_ : (MachineM.cell (scope.outer[0]?.getD 0) : ScriptM Value).runOn (s.atLine line) =
      (.ok (.table s.globals), s.atLine line) := by
    rw [MachineM.cell, runOn_bind_ok (runOn_get _), s.cells_atLine, globals]
    rfl
  rw [value, subjectOf, pure_bind, value, pure_bind, runOn_bind_ok (runOn_setLine line s), read]
  refine (runOn_bind_ok variable_ _).trans ?_
  rw [← held] at present ⊢
  exact runOn_index present

/-- A run of statements evaluates a call with a name and then goes on. -/
theorem run_call (callee : Expr) (name : String) (line slot : Nat) (stmts : List Stmt)
    (after : Ending → ScriptM Completion) :
    (run call scope (.call (.call callee [.text name.toByteArray] line slot) :: stmts) >>= after) =
      (do
        let f ← value call scope callee
        setLine line
        let _ ← call { kind := callee.origin.kind, name := callee.origin.name, slot := some slot } f
          [.text name]
        run call scope stmts >>= after) := by
  have text : valuesOf call scope [.text name.toByteArray] = pure [.text name] := by
    rw [valuesOf, values, value]
    · rfl
    all_goals simp
  rw [run, exec, values, text]
  simp only [callAt, discard, map_const, Function.comp_apply, map_eq_pure_bind, bind_assoc,
    pure_bind]

/-- A run of statements ends with a constant that it returns. -/
theorem run_result (call : Caller) (scope : Scope) {e : Expr} (constant : e.isConstant = true)
    (after : Ending → ScriptM Completion) :
    ∃ v : Value, v ≠ .nil ∧ v.Crosses ∧
      (run call scope [.result [e]] >>= after) = after (.returned [v]) := by
  obtain ⟨v, present, crosses, same⟩ := values_constant call scope constant
  refine ⟨v, present, crosses, ?_⟩
  rw [run, exec, same]
  simp only [pure_bind]

end Evaluation

/-! ## Objects -/

/-- The machine has a function of the language under a global name. -/
def Machine.HasStandard (s : Machine) (name : String) (f : Standard) : Prop :=
  ∃ id, s.held s.globals name = .function id ∧
    s.functions[id.index]? = some (.native (.standard f))

theorem Machine.HasStandard.onward {name : String} {f : Standard} (has : s.HasStandard name f)
    (globals : t.globals = s.globals) (held : t.held s.globals name = s.held s.globals name)
    (functions : ∀ (i : Nat) (g : Function), s.functions[i]? = some g → t.functions[i]? = some g) :
    t.HasStandard name f := by
  obtain ⟨id, there, native⟩ := has
  exact ⟨id, by rw [globals, held, there], functions _ _ native⟩

/-- What the plainest bodies rely on is the function that makes objects of tables. -/
def Requirer.plain (resolver : Nat) (cache : TableId) (function : FunctionId) : Requirer where
  resolver
  cache
  function
  relies s := s.HasStandard "setmetatable" .setMetatable
  kept _ _ has same := has.onward same.globals (same.entries _ _) same.functions

section

variable {resolver : Nat} {cache : TableId} {function : FunctionId}
  (ready : Ready (.plain resolver cache function) s)

include ready

theorem Ready.relies_entering (name : String) (v : Value) :
    (Requirer.plain resolver cache function).relies (s.entering cache name v) :=
  ready.relies.onward rfl (Machine.held_entering_other (fun same => ready.apart same.symm) s name _ v)
    fun _ _ found => found

/-- New tables leave alone what a resolver depends on. -/
theorem Ready.quiet_tables {tables : Array Table} (more : s.tables.size ≤ tables.size)
    (old : ∀ i < s.tables.size, tables[i]? = s.tables[i]?) :
    Quiet (.plain resolver cache function) s { s with tables := tables } := by
  have held (id : TableId) (known : id.index < s.tables.size) (x : String) :
      ({ s with tables := tables } : Machine).held id x = s.held id x := by
    rw [Machine.held, Machine.held, old _ known]
  have globals := held s.globals ready.globals_lt
  exact ⟨⟨rfl, rfl, rfl, rfl, rfl, rfl, more, fun _ _ found => found, globals "require",
    fun relied => relied.onward rfl (globals _) fun _ _ found => found⟩, held _ ready.cache, rfl⟩

end

/-! ## Bodies -/

/-- How a function ends whose statements have ended. -/
def Ending.completion : Ending → ScriptM Completion
  | .returned values => return .values values
  | .handedOver f args => return .call f args
  | _ => return .values []

/-- The call of the function that makes an object without fields. -/
def Expr.object (shown : String) (line items entries items' entries' line' slot : Nat) : Expr :=
  .call (.index (.variable (.outer 0 shown)) (.text "setmetatable".toByteArray) line)
    [.table [] items entries, .table [] items' entries'] line' slot

/-- The machine after a body has returned what that call makes. -/
def Machine.withReturned (s : Machine) (line items entries items' entries' line' : Nat) : Machine :=
  (s.calling line "setmetatable" line').withObject (.ofSize items entries) (.ofSize items' entries')

section

variable {resolver : Nat} {cache : TableId} {function : FunctionId} {depth slot : Nat}
  {scope : Scope} (room : Roomy depth s) (ready : Ready (.plain resolver cache function) s)
  (globals : s.cells[scope.outer[0]?.getD 0]? = some (.table s.globals))
  (small : slot ≤ Grammar.Layout.slotLimit)

include room ready globals small

theorem Evaluation.runOn_exec_object (shown : String) (line items entries items' entries' line' : Nat) :
    (exec (Calls.callAt depth) scope
      (.handOver (.object shown line items entries items' entries' line' slot))).runOn s =
        (.ok (.returned [.table ⟨s.tables.size⟩]),
          s.withReturned line items entries items' entries' line') := by
  obtain ⟨f, held, native⟩ := ready.relies
  obtain ⟨deeper, rfl⟩ : ∃ deeper, depth = deeper + 1 := by
    refine Nat.exists_eq_succ_of_ne_zero ?_
    rintro rfl
    exact absurd room.depth (by decide)
  have present : s.held s.globals "setmetatable" ≠ .nil := by
    rw [held]
    intro same
    cases same
  have callee := value_global (Calls.callAt (deeper + 1)) present globals shown line
  rw [held] at callee
  have quiet := s.quiet_calling (.plain resolver cache function) line "setmetatable" line'
  have size : ((s.atLine line).searched s.globals "setmetatable").tables.size = s.tables.size := by
    rw [Machine.size_tables_searched, s.tables_atLine]
  unfold Machine.withReturned Machine.calling at *
  generalize (s.atLine line).searched s.globals "setmetatable" = t at callee quiet size ⊢
  have enough : (t.atLine line').base + slot + 3 + nativeSlots ≤ stackLimit := by
    have below := room.base
    rw [quiet.base]
    simp only [callRoom, nestingLimit, nativeSlots, stackLimit, Grammar.Layout.slotLimit] at *
    omega
  have args := runOn_valuesOf_tables (Calls.callAt (deeper + 1)) scope items entries items' entries' t
  have there : (t.withTables (.ofSize items entries) (.ofSize items' entries')).functions[f.index]? =
      some (.native (.standard .setMetatable)) := by
    have kept := quiet.functions _ _ native
    rwa [t.functions_atLine] at kept
  have called (site : CallSite) (own : site.slot = some slot) :=
    Calls.callAt_setMetatable deeper (.ofSize items' entries') own (quiet.functions _ _ native) enough
      (rfl : (Table.ofSize items entries).metatable = none)
  rw [t.tables_atLine, ← t.atLine_withTables] at called
  rw [Expr.object, exec, runOn_bind_ok callee, runOn_bind_ok args, runOn_handOver_native _ there,
    runOn_bind_ok (called _ rfl), size]
  rfl

omit room globals small in
theorem Ready.quiet_withReturned (line items entries items' entries' line' : Nat) :
    Quiet (.plain resolver cache function) s
      (s.withReturned line items entries items' entries' line') := by
  have quiet := s.quiet_calling (.plain resolver cache function) line "setmetatable" line'
  refine quiet.trans ((ready.onward quiet.toSteady).quiet_tables ?_ fun i known =>
    Machine.getElem?_withObject _ _ known)
  rw [Array.size_modify, Array.size_push, Array.size_push]
  exact Nat.le_add_right _ 2

omit room ready globals small in
theorem Machine.cells_withReturned (s : Machine) (line items entries items' entries' line' : Nat) :
    (s.withReturned line items entries items' entries' line').cells = s.cells := by
  rw [withReturned, withObject, cells_calling]

/-- A body may return a new object. -/
theorem performs_object {start : Machine} (own : String) (cells : KeepsCells start s)
    (shown : String) (line items entries items' entries' line' : Nat) :
    Performs (Calls.callAt depth) (.plain resolver cache function) own start []
      (Evaluation.run (Calls.callAt depth) scope
        [.handOver (.object shown line items entries items' entries' line' slot)] >>=
          Ending.completion) s := by
  have run := Evaluation.runOn_exec_object room ready globals small shown line items entries items'
    entries' line'
  have quiet := ready.quiet_withReturned line items entries items' entries' line'
  have kept : KeepsCells start (s.withReturned line items entries items' entries' line') := by
    intro i v found
    rw [s.cells_withReturned]
    exact cells i v found
  have ends : (Evaluation.run (Calls.callAt depth) scope
      [.handOver (.object shown line items entries items' entries' line' slot)] >>=
        Ending.completion).runOn s = (.ok (.values [.table ⟨s.tables.size⟩]),
          s.withReturned line items entries items' entries' line') := by
    rw [Evaluation.run, bind_assoc, runOn_bind_ok run]
    rfl
  exact .of_value ends quiet kept nofun nofun
    ((ready.onward quiet.toSteady).relies_entering own _)

end

section

variable {resolver : Nat} {cache : TableId} {function : FunctionId} {depth : Nat} {scope : Scope}
  {own : String} {start : Machine}

/-- A body may end with any of the statements that return. -/
theorem performs_of_ends {stmt : Stmt} (written : stmt.ends = true) (room : Roomy depth s)
    (ready : Ready (.plain resolver cache function) s) (cells : KeepsCells start s)
    (globals : s.cells[scope.outer[0]?.getD 0]? = some (.table s.globals)) :
    Performs (Calls.callAt depth) (.plain resolver cache function) own start []
      (Evaluation.run (Calls.callAt depth) scope [stmt] >>= Ending.completion) s := by
  unfold Stmt.ends at written
  split at written
  · next e =>
    obtain ⟨v, present, crosses, same⟩ :=
      Evaluation.run_result (Calls.callAt depth) scope written Ending.completion
    rw [same]
    exact .of_value rfl (.refl _ s) cells present crosses (ready.relies_entering own v)
  · next shown key line items entries items' entries' line' slot =>
    simp only [decide_eq_true_eq, Value.text, Value.str.injEq] at written
    obtain ⟨rfl, small⟩ := written
    exact performs_object room ready globals small own cells shown line items entries items'
      entries' line'
  · cases written

/-- Statements that are the plainest body require their names. -/
theorem performs_of_isModuleBody {names : List String} {stmts : List Stmt}
    (written : isModuleBody names stmts = true) (room : Roomy depth s)
    (ready : Ready (.plain resolver cache function) s) (cells : KeepsCells start s)
    (globals : s.cells[scope.outer[0]?.getD 0]? = some (.table s.globals)) :
    Performs (Calls.callAt depth) (.plain resolver cache function) own start names
      (Evaluation.run (Calls.callAt depth) scope stmts >>= Ending.completion) s := by
  induction names, stmts using isModuleBody.induct generalizing s with
  | case1 stmt => exact performs_of_ends written room ready cells globals
  | case2 name names stmt stmts ih =>
    rw [isModuleBody, Bool.and_eq_true] at written
    obtain ⟨requires, rest⟩ := written
    unfold Stmt.requires at requires
    split at requires
    · next shown key line text line' slot =>
      simp only [decide_eq_true_eq, Value.text, Value.str.injEq] at requires
      obtain ⟨rfl, rfl, small⟩ := requires
      have present : s.held s.globals "require" ≠ .nil := by
        rw [ready.require]
        intro same
        cases same
      have callee := Evaluation.value_global (Calls.callAt depth) present globals shown line
      rw [ready.require] at callee
      rw [Evaluation.run_call]
      have quiet := s.quiet_calling (.plain resolver cache function) line "require" line'
      have same := s.cells_calling line "require" line'
      have kept : KeepsCells start (s.calling line "require" line') := by
        intro i v found
        rw [same]
        exact cells i v found
      refine .requires (t := s.calling line "require" line')
        ((runOn_bind_ok callee _).trans (runOn_bind_ok (runOn_setLine line' _) _)) rfl small quiet kept
        fun u steady further _ _ => ?_
      have onward := quiet.toSteady.trans steady
      refine ih rest (room.onward onward) (ready.onward onward) (kept.trans further) ?_
      rw [steady.globals, quiet.globals]
      refine further _ _ ?_
      rw [same]
      exact globals
    · cases requires
  | case3 names stmts result call_ =>
    rw [isModuleBody] at written
    · cases written
    · exact result
    · exact call_

end

/-- The scope of a body without parameters. -/
def Routine.moduleScope (routine : Routine) (path name : String) (cell : Nat) : Scope where
  outer := #[cell]
  varargs := if routine.variadic then [.text name] else []
  chunk := chunkText ("@" ++ path)

theorem Routine.slots_le_of_isModule {names : List String} {routine : Routine}
    (written : routine.isModule names = true) : routine.slots ≤ Grammar.Layout.slotLimit := by
  rw [isModule, Bool.and_eq_true, decide_eq_true_eq] at written
  exact written.1.2

/-- The plainest body requires its names. -/
theorem Routine.requires_of_isModule {names : List String} {routine : Routine}
    (written : routine.isModule names = true) (resolver : Nat) (cache : TableId)
    (function : FunctionId) (path name : String) :
    routine.Requires (.plain resolver cache function) path name names := by
  intro depth cell s room ready globals
  rw [isModule, Bool.and_eq_true, decide_eq_true_eq] at written
  obtain ⟨⟨none_, -⟩, body⟩ := written
  have same : routine.moduleBody (Calls.callAt depth) path name cell =
      (Evaluation.run (Calls.callAt depth) (routine.moduleScope path name cell) routine.body >>=
        Ending.completion) := by
    rw [moduleBody, Evaluation.apply, none_]
    rfl
  rw [same]
  exact performs_of_isModuleBody body room ready (.refl s) globals

end

end ScriptHost
