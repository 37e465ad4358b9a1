import ScriptHost.Proofs.ModuleCalls

/-!
# New tables with metatables

A script makes an object of its own from two new tables, the second of which becomes the metatable
of the first.  All other tables stay as they are.
-/

namespace ScriptHost

open MachineM ScriptM

/-! ## Tables -/

namespace Machine

/-- The machine with two more tables. -/
def withTables (s : Machine) (content fields : Table) : Machine :=
  { s with tables := (s.tables.push content).push fields }

/-- The machine with two more tables, the first of which has the second as its metatable. -/
def withObject (s : Machine) (content fields : Table) : Machine :=
  { s with
    tables := ((s.tables.push content).push fields).modify s.tables.size fun t =>
      { t with metatable := some ⟨s.tables.size + 1⟩ } }

variable {s : Machine} (content fields : Table)

theorem table_withTables :
    (s.withTables content fields).tables[s.tables.size]?.getD default = content := by
  have first : s.tables.size < (s.tables.push content).size := by
    rw [Array.size_push]
    exact Nat.lt_succ_self _
  rw [withTables, Array.getElem?_push_lt first, Array.getElem_push_eq, Option.getD_some]

theorem atLine_withTables (line : Nat) :
    (s.withTables content fields).atLine line = (s.atLine line).withTables content fields := by
  rw [withTables, withTables, atLine_eq, atLine_eq]

theorem getElem?_withObject {i : Nat} (known : i < s.tables.size) :
    (s.withObject content fields).tables[i]? = s.tables[i]? := by
  have first : i < (s.tables.push content).size := by
    rw [Array.size_push]
    exact Nat.lt_succ_of_lt known
  rw [withObject, Array.getElem?_modify, if_neg (Nat.ne_of_gt known), Array.getElem?_push_lt first,
    Array.getElem_push_lt known, Array.getElem?_eq_getElem known]

end Machine

theorem Table.lengthen_zero (t : Table) : t.lengthen 0 = t := if_pos (Nat.zero_le _)

/-! ## Evaluation -/

namespace Evaluation

theorem runOn_setItems_nil (id : TableId) (s : Machine) :
    (setItems id 1 []).runOn s = (.ok (), s) := by
  have same : s.tables.modify id.index (fun t => t.lengthen 0) = s.tables := by
    refine Array.ext_getElem? fun i => ?_
    rw [Array.getElem?_modify]
    split
    · simp [Table.lengthen_zero]
    · rfl
  change (Except.ok (), { s with tables := s.tables.modify id.index (fun t => t.lengthen 0) }) = _
  rw [same]

variable (call : Caller) (scope : Scope)

theorem runOn_value_table (items entries : Nat) (s : Machine) :
    (value call scope (.table [] items entries)).runOn s =
      (.ok (.table ⟨s.tables.size⟩), { s with tables := s.tables.push (.ofSize items entries) }) := by
  rw [value, runOn_bind_ok (runOn_newTable _ s), fill]
  exact runOn_bind_ok (runOn_setItems_nil _ _) _

/-- Two empty tables that are written as arguments are new. -/
theorem runOn_valuesOf_tables (items entries items' entries' : Nat) (s : Machine) :
    (valuesOf call scope [.table [] items entries, .table [] items' entries']).runOn s =
      (.ok [.table ⟨s.tables.size⟩, .table ⟨s.tables.size + 1⟩],
        s.withTables (.ofSize items entries) (.ofSize items' entries')) := by
  have last (t : Machine) : (valuesOf call scope [.table [] items' entries']).runOn t =
      (.ok [.table ⟨t.tables.size⟩],
        { t with tables := t.tables.push (.ofSize items' entries') }) := by
    rw [valuesOf, values]
    · exact runOn_bind_ok (runOn_value_table call scope items' entries' t) _
    all_goals simp
  rw [valuesOf, runOn_bind_ok (runOn_value_table call scope items entries s), runOn_bind_ok (last _)]
  · simp [Machine.withTables]
  · simp

/-- A native function does not take the place of the function that ends with its call. -/
theorem runOn_handOver_native {n : Native} {f : FunctionId} {s : Machine}
    (native : s.functions[f.index]? = some (.native n)) (line slot : Nat) (written : Origin)
    (args : List Value) :
    (handOver call line slot written (.function f) args).runOn s =
      (call { kind := written.kind, name := written.name, slot := some slot } (.function f) args
        >>= fun values => pure (Ending.returned values)).runOn (s.atLine line) := by
  have found : (MachineM.function f : ScriptM Function).runOn (s.atLine line) =
      (.ok (.native n), s.atLine line) := runOn_function (by rw [s.functions_atLine, native])
  have called : (callable { kind := written.kind, name := written.name, slot := some slot }
      stackLimit (.function f) args).runOn (s.atLine line) = (.ok (f, args), s.atLine line) := by
    unfold callable
    rfl
  rw [handOver, runOn_bind_ok (runOn_setLine line s), runOn_bind_ok called]
  exact runOn_bind_ok found _

end Evaluation

/-! ## Metatables -/

/-- A table without a metatable has no metamethods. -/
theorem ScriptM.runOn_metamethod_of_none {s : Machine} {id : TableId} (event : String)
    (plain : (s.tables[id.index]?.getD default).metatable = none) :
    (metamethod (.table id) event).runOn s = (.ok .nil, s) := by
  rw [metamethod, metatable, runOn_bind_ok (runOn_bind_ok (runOn_table id s) _), plain]
  rfl

/-- A table that has none gets a metatable. -/
theorem Library.runOn_setMetatable {s : Machine} {id : TableId} (fields : TableId)
    (plain : (s.tables[id.index]?.getD default).metatable = none) :
    (setMetatable [.table id, .table fields]).runOn s =
      (.ok [.table id],
        { s with
          tables := s.tables.modify id.index fun t => { t with metatable := some fields } }) := by
  have free := runOn_metamethod_of_none "metatable" plain
  have checked : (checkTable [.table id, .table fields] 1).runOn s = (.ok id, s) := rfl
  have offered : (checkMetatable [.table id, .table fields]).runOn s = (.ok (some fields), s) := rfl
  rw [setMetatable, runOn_bind_ok checked, runOn_bind_ok offered, runOn_bind_ok free]
  rfl

/-- A script calls the function for that by itself. -/
theorem Calls.callAt_setMetatable {site : CallSite} {slot : Nat} {f : FunctionId} {s : Machine}
    {content : Table} (depth : Nat) (fields : Table) (own : site.slot = some slot)
    (native : s.functions[f.index]? = some (.native (.standard .setMetatable)))
    (room : s.base + slot + 3 + nativeSlots ≤ stackLimit) (plain : content.metatable = none) :
    (callAt (depth + 1) site (.function f)
      [.table ⟨s.tables.size⟩, .table ⟨s.tables.size + 1⟩]).runOn (s.withTables content fields) =
        (.ok [.table ⟨s.tables.size⟩], s.withObject content fields) := by
  have there : (s.withTables content fields).functions[f.index]? = _ := native
  obtain ⟨start, -, same⟩ := callAt_native there [.table ⟨s.tables.size⟩,
    .table ⟨s.tables.size + 1⟩] own room
  have free := congrArg Table.metatable (s.table_withTables content fields)
  have set_ := Library.runOn_setMetatable (s := { s.withTables content fields with
    frames := nativeFrame site f start 2 :: s.frames }) ⟨s.tables.size + 1⟩ (free.trans plain)
  rw [same, runOn_inFrame]
  exact congrArg (fun outcome => (outcome.1, { outcome.2 with frames := s.frames })) set_

end ScriptHost
