import ScriptHost.Execution
import ScriptHost.Proofs.PublishedNames

/-!
# Globals that the host brings

A host gives scripts its globals one after the other: functions, objects and namespaces.  Each one
comes under its own name, as a new function or as a new table that has its names already.  The other
globals stay, and so do the tables and functions that they lead to.
-/

namespace ScriptHost

open MachineM

namespace Machine

/-- New globals: what is not the table of globals stays, and in it what has other names. -/
structure Brings (names : List String) (s t : Machine) : Prop where
  globals : t.globals = s.globals
  size_le : s.tables.size ≤ t.tables.size
  metatable : (t.tables[s.globals.index]?.getD default).metatable =
    (s.tables[s.globals.index]?.getD default).metatable
  held (x : String) (other : x ∉ names) : t.held s.globals x = s.held s.globals x
  tables (id : TableId) (other : id ≠ s.globals) (known : id.index < s.tables.size) :
    t.tables[id.index]? = s.tables[id.index]?
  functions : ∃ more, t.functions = s.functions ++ more
  objects : ∃ more, t.objects.instances = s.objects.instances ++ more
  resolvers : t.resolvers = s.resolvers
  handles (id : TableId) (known : id.index < s.tables.size) (handle : Handle)
    (found : s.handle? id = some handle) : t.handle? id = some handle

/-- A table of globals that takes whatever is set in it. -/
structure Receptive (s : Machine) : Prop where
  known : s.globals.index < s.tables.size
  plain : (s.tables[s.globals.index]?.getD default).metatable = none

variable {names others : List String} {s t u : Machine} {id : TableId} {x name : String}
  {v : Value} {n : ScriptHost.Native} {b : Publisher} {bindings : List (String × Binding)}

namespace Brings

theorem refl (s : Machine) : Brings [] s s :=
  ⟨rfl, Nat.le_refl _, rfl, fun _ _ => rfl, fun _ _ _ => rfl, ⟨#[], Array.append_empty.symm⟩,
    ⟨#[], Array.append_empty.symm⟩, rfl, fun _ _ _ => id⟩

theorem trans (first : Brings names s t) (second : Brings others t u) :
    Brings (names ++ others) s u where
  globals := second.globals.trans first.globals
  size_le := Nat.le_trans first.size_le second.size_le
  metatable := by
    have after := second.metatable
    rw [first.globals] at after
    exact after.trans first.metatable
  held x other := by
    have after := second.held x fun inside => other (List.mem_append_right _ inside)
    rw [first.globals] at after
    exact after.trans (first.held x fun inside => other (List.mem_append_left _ inside))
  tables id other known := by
    have after := second.tables id (first.globals ▸ other) (Nat.lt_of_lt_of_le known first.size_le)
    exact after.trans (first.tables id other known)
  functions := by
    obtain ⟨more, functions⟩ := first.functions
    obtain ⟨others, again⟩ := second.functions
    exact ⟨more ++ others, by rw [again, functions, Array.append_assoc]⟩
  objects := by
    obtain ⟨more, objects⟩ := first.objects
    obtain ⟨others, again⟩ := second.objects
    exact ⟨more ++ others, by rw [again, objects, Array.append_assoc]⟩
  resolvers := second.resolvers.trans first.resolvers
  handles id known handle found := second.handles id (Nat.lt_of_lt_of_le known first.size_le)
    handle (first.handles id known handle found)

theorem receptive (brings : Brings names s t) (receptive : s.Receptive) : t.Receptive := by
  refine ⟨?_, ?_⟩
  · rw [brings.globals]
    exact Nat.lt_of_lt_of_le receptive.known brings.size_le
  · rw [brings.globals, brings.metatable]
    exact receptive.plain

/-- No object that is there is another one afterwards. -/
theorem object (brings : Brings names s t) {o : ObjectId}
    (known : o.index < s.objects.instances.size) : t.objects.get o = s.objects.get o := by
  obtain ⟨more, objects⟩ := brings.objects
  rw [Objects.get, Objects.get, objects, Array.getElem?_append_left known]

/-- Changes of the table of globals alone. -/
theorem of_gains (gains : Gains s.globals s t)
    (metatable : (t.tables[s.globals.index]?.getD default).metatable =
      (s.tables[s.globals.index]?.getD default).metatable)
    (held : ∀ x ∉ names, t.held s.globals x = s.held s.globals x) : Brings names s t where
  globals := by rw [gains.rest]
  size_le := gains.size_le
  metatable := metatable
  held := held
  tables := gains.tables
  functions := gains.functions
  objects := ⟨#[], by rw [gains.rest, Array.append_empty]⟩
  resolvers := by rw [gains.rest]
  handles id _ handle found := by
    rw [gains.rest]
    exact found

/-- Changes of a new table alone. -/
theorem of_gains_new (receptive : s.Receptive) (gains : Gains id s t)
    (new : s.tables.size ≤ id.index) : Brings [] s t := by
  have same := gains.tables s.globals
    (by rintro rfl; exact Nat.not_lt_of_le new receptive.known) receptive.known
  exact of_gains (gains.elsewhere new) (by rw [same]) fun x _ => held_congr same x

/-- A global that is set. -/
theorem storing (receptive : s.Receptive) (name : String) (v : Value) :
    Brings [name] s (s.storing s.globals name v) := by
  refine of_gains (.storing s s.globals name v) ?_ fun x other => ?_
  · rw [Machine.storing, metatable_entering, metatable_searched]
  · rw [held_storing receptive.known, if_neg fun same => other (List.mem_singleton.2 same)]

/-- A new proxy that gets its names. -/
theorem named (receptive : s.Receptive) {o : ObjectId}
    (gains : Gains ⟨s.tables.size⟩ (Publisher.pointing s o) t) : Brings [] s t := by
  have size : (Publisher.pointing s o).tables.size = s.tables.size + 1 := by
    simp [Publisher.pointing, marked]
  have apart {id : TableId} (known : id.index < s.tables.size) : id ≠ ⟨s.tables.size⟩ := by
    rintro rfl
    exact Nat.lt_irrefl _ known
  have tables {id : TableId} (known : id.index < s.tables.size) :
      t.tables[id.index]? = s.tables[id.index]? := by
    rw [gains.tables id (apart known) (size ▸ Nat.lt_succ_of_lt known)]
    exact (Gains.newTable ⟨s.tables.size⟩ s .empty).tables id (apart known) known
  refine ⟨by rw [gains.rest]; rfl, ?_, by rw [tables receptive.known],
    fun x _ => held_congr (tables receptive.known) x, fun id _ known => tables known,
    gains.functions, ⟨#[], by rw [gains.rest]; exact Array.append_empty.symm⟩,
    by rw [gains.rest]; rfl, fun id known handle found => ?_⟩
  · exact Nat.le_trans (size ▸ Nat.le_succ _) gains.size_le
  · rw [gains.rest]
    exact handle?_marked_of_some (s := { s with tables := s.tables.push .empty }) found
      (apart known) _

/-- An object that no script has seen. -/
theorem newObject (s : Machine) (i : Instance) :
    Brings [] s { s with objects := (s.objects.add i).2 } :=
  { refl s with objects := ⟨#[i], Array.push_eq_append⟩ }

end Brings

/-- A global that is a table with the names that were published in it. -/
structure HasGlobal (b : Publisher) (s : Machine) (x : String) (id : TableId)
    (bindings : List (String × Binding)) : Prop where
  global : s.held s.globals x = .table id
  newer : s.globals.index < id.index
  shows : s.ShowsAll b id bindings

theorem ShowsAll.brings (all : s.ShowsAll b id bindings) (newer : s.globals.index < id.index)
    (brings : Brings names s t) : t.ShowsAll b id bindings :=
  all.keep brings.size_le
    (fun other above inside => brings.tables other (by rintro rfl; omega) inside) brings.functions

/-- A global stays what it is when others are brought. -/
theorem HasGlobal.brings (shown : s.HasGlobal b x id bindings) (brings : Brings names s t)
    (other : x ∉ names) : t.HasGlobal b x id bindings := by
  refine ⟨?_, ?_, shown.shows.brings shown.newer brings⟩
  · rw [brings.globals, brings.held x other]
    exact shown.global
  · rw [brings.globals]
    exact shown.newer

/-- A global that is a proxy of an object, with its methods and the items of its package. -/
structure HasProxy (b : Publisher) (s : Machine) (x : String) (id : TableId) (o : ObjectId)
    (shape : Shape) : Prop extends
    HasGlobal b s x id (objectBindings o (b.methodsOf shape)
      (b.registry.package shape.package)) where
  handle : s.handle? id = some ⟨.ptr (some o), some shape⟩

theorem HasProxy.brings {o : ObjectId} {shape : Shape} (proxy : s.HasProxy b x id o shape)
    (brings : Brings names s t) (other : x ∉ names) : t.HasProxy b x id o shape :=
  ⟨proxy.toHasGlobal.brings brings other, brings.handles id proxy.shows.known _ proxy.handle⟩

theorem Offers.brings (offers : s.Offers s.globals x n) (brings : Brings names s t)
    (other : x ∉ names) : t.Offers t.globals x n := by
  rw [brings.globals]
  exact offers.mono (brings.held x other) brings.functions

end Machine

/-! ## Publishing globals -/

namespace Publisher

open Machine

variable {b : Publisher} {s t : Machine} {name package : String} {v : Value}

theorem runOn_setGlobal (receptive : s.Receptive) (crosses : v.Crosses) :
    (b.setGlobal name v).runOn s = (.ok (), s.storing s.globals name v) := by
  rw [setGlobal, runOn_mapError_ok (ScriptM.runOn_setGlobalFor (fun _ => receptive.plain) crosses)]
  rfl

/-- A function that becomes a global. -/
theorem runOn_publishGlobal (b : Publisher) (receptive : s.Receptive) (name : String)
    (n : Native) :
    ∃ f t, (b.publishNative none name n).runOn s = (.ok f, t) ∧ Brings [name] s t ∧
      t.objects = s.objects ∧ t.Offers t.globals name n := by
  let f : Value := .function ⟨s.functions.size⟩
  let made : Machine := { s with functions := s.functions.push (.native n) }
  have brings : Brings [] s made := { Brings.refl s with
    functions := ⟨#[.native n], Array.push_eq_append⟩ }
  have ready := brings.receptive receptive
  have created : (newNative n : PublishM Value).runOn s = (.ok f, made) := rfl
  have storing := Brings.storing ready name f
  refine ⟨f, made.storing made.globals name f, ?_, brings.trans storing, ?_, ?_⟩
  · rw [publishNative, runOn_bind_ok created]
    exact runOn_bind_ok (runOn_setGlobal ready (Value.crosses_function _)) _
  · rw [(Gains.storing made made.globals name f).rest]
  · obtain ⟨more, functions⟩ := storing.functions
    refine ⟨⟨s.functions.size⟩, ?_, ?_⟩
    · rw [storing.globals, held_storing ready.known, if_pos rfl]
    · rw [functions, Array.getElem?_append_left (by simp [made])]
      simp [made]

/-- The last step of publishing a table: its names are there already. -/
theorem runOn_setGlobal_table {id : TableId} {bindings : List (String × Binding)}
    (receptive : s.Receptive) (newer : s.globals.index < id.index)
    (all : s.ShowsAll b id bindings) (name : String) :
    ∃ t, (b.setGlobal name (.table id)).runOn s = (.ok (), t) ∧ Brings [name] s t ∧
      t.HasGlobal b name id bindings := by
  have storing := Brings.storing receptive name (.table id)
  refine ⟨_, runOn_setGlobal receptive (Value.crosses_table id), storing, ?_, ?_,
    all.brings newer storing⟩
  · rw [storing.globals, held_storing receptive.known, if_pos rfl]
  · rw [storing.globals]
    exact newer

/-- A table with the items of a package. -/
theorem runOn_publishPackageAs (b : Publisher) (receptive : s.Receptive) (name package : String) :
    ∃ id t, (b.publishPackageAs name package).runOn s = (.ok id, t) ∧ Brings [name] s t ∧
      t.HasGlobal b name id ((b.registry.package package).map fun e => (e.name, e.binding)) := by
  let id : TableId := ⟨s.tables.size⟩
  let made : Machine := { s with tables := s.tables.push .empty }
  have created : (newTable : PublishM TableId).runOn s = (.ok id, made) := rfl
  have empty : made.ShowsAll b id [] := .empty (by simp [made, id])
  obtain ⟨t, published, gains, all⟩ := runOn_publishEntries empty (b.registry.package package)
  have brings := Brings.of_gains_new receptive ((Gains.newTable id s .empty).trans gains)
    (Nat.le_refl _)
  obtain ⟨u, set, storing, shown⟩ := runOn_setGlobal_table (brings.receptive receptive)
    (brings.globals ▸ receptive.known) all name
  refine ⟨id, u, ?_, brings.trans storing, shown⟩
  rw [publishPackageAs, runOn_bind_ok created,
    runOn_bind_ok (runOn_discard (runOn_bind_ok published _)), runOn_bind_ok set]
  rfl

/-- A proxy has its handle and all its names before it becomes a global. -/
theorem runOn_publishObject (b : Publisher) (receptive : s.Receptive) (name : String)
    (o : ObjectId) :
    ∃ id t, (b.publishObject name (.ptr (some o))).runOn s = (.ok id, t) ∧ Brings [name] s t ∧
      t.HasProxy b name id o (s.objects.get o).shape := by
  let id : TableId := ⟨s.tables.size⟩
  obtain ⟨t, published, gains, all⟩ := runOn_publishObjectWith b name
    (s.objects.get o).shape.package o s
  have brings := Brings.named receptive gains
  have known : s.tables.size < (pointing s o).tables.size := by simp [pointing, marked]
  obtain ⟨u, set, storing, shown⟩ := runOn_setGlobal_table (brings.receptive receptive)
    (brings.globals ▸ receptive.known) all name
  refine ⟨id, u, ?_, brings.trans storing, shown, ?_⟩
  · rw [publishObject, runOn_bind_ok (runOn_get s)]
    exact published.trans (runOn_bind_ok set _)
  · refine storing.handles id (Nat.lt_of_lt_of_le known gains.size_le) _ ?_
    rw [gains.rest]
    exact handle?_marked_self _ id _

end Publisher

end ScriptHost
