import ScriptHost.Boundary.Publisher
import ScriptHost.Proofs.Assignments
import ScriptHost.Proofs.FieldTables
import ScriptHost.Proofs.NativeCalls
import ScriptHost.Proofs.ProxyRuns

/-!
# Calls of the functions of classes

A call of `get`, `set` or `new` that ends well has been let through by all that stands between the
scripts and the host.  What it has done is said in terms of the object behind the proxy that it was
given: its fields are read, or take a table, or it is a new object behind a new proxy.
-/

namespace ScriptHost

open MachineM

/-- A class of a declared type, with a stored value for each field. -/
structure HostClass.Declared (info : HostClass) : Prop where
  shape : info.shape.Declared
  full : info.initial.length = info.shape.fields.length

namespace Machine

/-- A table is a proxy for an object. -/
def Represents (s : Machine) (i : TableId) (o : ObjectId) : Prop :=
  s.unwrap? i = some (.struct o) ∨ s.unwrap? i = some (.ptr (some o))

theorem Represents.unique {s : Machine} {i : TableId} {o p : ObjectId} (first : s.Represents i o)
    (second : s.Represents i p) : o = p := by
  rcases first with first | first <;> rcases second with second | second <;>
    rw [first] at second <;> cases second <;> rfl

/-- What fields take of a table. -/
def brought (s : Machine) (values : TableId) : Field → Option HostValue :=
  s.accepted (s.tables[values.index]?.getD default)

theorem brought_congr {s t : Machine} {values : TableId}
    (accepts : ∀ f v, t.acceptedOf f v = s.acceptedOf f v)
    (held : ∀ name, t.held values name = s.held values name) :
    t.brought values = s.brought values :=
  funext fun f =>
    calc t.acceptedOf f (t.held values f.name)
      _ = s.acceptedOf f (t.held values f.name) := accepts f _
      _ = s.acceptedOf f (s.held values f.name) := by rw [held]

/-- A machine with the proxies of another. -/
structure KeepsProxies (s t : Machine) : Prop where
  size : t.tables.size = s.tables.size
  proxies : t.proxies = s.proxies
  handles : t.handles = s.handles

namespace KeepsProxies

variable {s t u : Machine}

theorem trans (first : s.KeepsProxies t) (second : t.KeepsProxies u) : s.KeepsProxies u :=
  ⟨second.size.trans first.size, second.proxies.trans first.proxies,
    second.handles.trans first.handles⟩

theorem sound (keeps : s.KeepsProxies t) (sound : s.Sound) : t.Sound := by
  intro entry among
  rw [keeps.size, keeps.handles]
  exact sound entry (keeps.proxies ▸ among)

theorem unwrap? (keeps : s.KeepsProxies t) (i : TableId) : t.unwrap? i = s.unwrap? i := by
  rw [Machine.unwrap?, Machine.unwrap?, handle?, handle?, keeps.proxies, keeps.handles]

theorem acceptedOf (keeps : s.KeepsProxies t) (f : Field) (v : Value) :
    t.acceptedOf f v = s.acceptedOf f v := by
  have same : t.offered v = s.offered v := by
    cases v with
    | table id => exact keeps.unwrap? id
    | _ => rfl
  rw [Machine.acceptedOf, Machine.acceptedOf, same]

theorem represents (keeps : s.KeepsProxies t) {i : TableId} {o : ObjectId} :
    t.Represents i o ↔ s.Represents i o := by
  rw [Represents, Represents, keeps.unwrap?]

theorem of_aside (aside : s.Aside t) : s.KeepsProxies t := by
  obtain ⟨_, _, rfl⟩ := aside
  exact ⟨rfl, rfl, rfl⟩

theorem searched (s : Machine) (id : TableId) (name : String) :
    s.KeepsProxies (s.searched id name) := by
  obtain ⟨tables, size, same⟩ := s.searched_eq id name
  rw [same]
  exact ⟨size, rfl, rfl⟩

end KeepsProxies

end Machine

/-! ## What the functions do -/

namespace Published

variable {s t : Machine} {i values home : TableId} {o : ObjectId} {results : List Value}
  {policy : AssignPolicy} {info : HostClass}

theorem runOn_crossed_eq_ok {α : Type} {m : CrossingM α} {a : α} :
    (crossed m).runOn s = (.ok a, t) ↔ m.runOn s = (.ok a, t) := by
  rw [crossed, runOn_mapError]
  rcases m.runOn s with ⟨stop | b, u⟩
  · exact iff_of_false nofun nofun
  · constructor <;>
    · intro same
      cases same
      rfl

theorem runOn_receiver (proxy : s.Represents i o) :
    (receiver (some (.table i))).runOn s = (.ok o, s) := by
  rw [receiver, runOn_bind_ok (runOn_get s)]
  dsimp only
  rcases proxy with proxy | proxy <;> rw [proxy] <;> rfl

theorem runOn_receiver_ok (run : (receiver (some (.table i))).runOn s = (.ok o, t)) :
    t = s ∧ s.Represents i o := by
  rw [receiver, runOn_bind_ok (runOn_get s)] at run
  dsimp only at run
  cases stands : s.unwrap? i with
  | none =>
    rw [stands] at run
    cases run
  | some v =>
    rw [stands] at run
    cases v with
    | struct p =>
      cases run
      exact ⟨rfl, .inl stands⟩
    | ptr target =>
      cases target with
      | none => cases run
      | some p =>
        cases run
        exact ⟨rfl, .inr stands⟩
    | _ => cases run

theorem runOn_classGet_ok (run : (classGet [.table i]).runOn s = (.ok results, t)) :
    ∃ o id, s.Represents i o ∧ results = [.table id] ∧
      (Crossing.fieldTable o).runOn s = (.ok id, t) := by
  rw [classGet, if_neg fun different => different rfl] at run
  obtain ⟨o, u, received, rest⟩ := runOn_bind_eq_ok.1 run
  obtain ⟨rfl, stands⟩ := runOn_receiver_ok received
  obtain ⟨id, w, table, done⟩ := runOn_bind_eq_ok.1 rest
  cases done
  exact ⟨o, id, stands, rfl, runOn_crossed_eq_ok.1 table⟩

theorem runOn_classSet (proxy : s.Represents i o) :
    (classSet policy [.table i, .table values]).runOn s =
      (do crossed (Crossing.assign o values policy); return []).runOn s := by
  rw [classSet, List.head?_cons, runOn_bind_ok (runOn_receiver proxy)]
  rfl

theorem runOn_classSet_ok
    (run : (classSet policy [.table i, .table values]).runOn s = (.ok results, t)) :
    ∃ o, s.Represents i o ∧ (Crossing.assign o values policy).runOn s = (.ok (), t) := by
  rw [classSet] at run
  obtain ⟨o, u, received, rest⟩ := runOn_bind_eq_ok.1 run
  obtain ⟨rfl, stands⟩ := runOn_receiver_ok received
  obtain ⟨_, w, assigned, done⟩ := runOn_bind_eq_ok.1 rest
  cases done
  exact ⟨o, stands, runOn_crossed_eq_ok.1 assigned⟩

end Published

namespace Machine

/-- The machine with a fresh object of a class and a new table. -/
def furnished (s : Machine) (info : HostClass) : Machine :=
  { s with
    objects := (s.objects.add { shape := info.shape, fields := info.initial }).2
    tables := s.tables.push .empty }

/-- The machine in which the new table is a proxy for the fresh object. -/
def proxied (s : Machine) (info : HostClass) : Machine :=
  (s.furnished info).marked ⟨s.tables.size⟩
    ((s.furnished info).handleOf (.ptr (some ⟨s.objects.size⟩)))

/-- The machine in which the proxy belongs to its class. -/
def created (s : Machine) (info : HostClass) (home : TableId) : Machine :=
  { s.proxied info with
    tables := (s.furnished info).tables.modify s.tables.size fun t =>
      { t with metatable := some home } }

section

variable {s : Machine} (info : HostClass) (home : TableId)

/-- The new table is empty, and the others hold what they did. -/
theorem created_held (id : TableId) (name : String) :
    (s.created info home).held id name = s.held id name := by
  have tables : (s.created info home).tables = (s.tables.push .empty).modify s.tables.size
      fun t => { t with metatable := some home } := rfl
  rw [held, held, tables, Array.getElem?_modify]
  by_cases last : s.tables.size = id.index
  · have absent : s.tables[id.index]? = none := Array.getElem?_eq_none (Nat.le_of_eq last)
    rw [if_pos last, ← last, Array.getElem?_push_size, last, absent]
    exact (Table.get_bare 0 0 (some home) _).trans (Table.get_empty _).symm
  · rw [if_neg last, Array.getElem?_push, if_neg (Ne.symm last)]

theorem furnished_grown (sound : s.Sound) : Grown ⟨s.tables.size⟩ s (s.furnished info) :=
  have added : Grown ⟨s.tables.size⟩ s { s with
      objects := (s.objects.add { shape := info.shape, fields := info.initial }).2 } :=
    .withObjects sound (.push _ _)
  added.trans (.newTable added.sound (Table.live_bare 0 0 none))

theorem created_keeps : (s.proxied info).KeepsProxies (s.created info home) :=
  ⟨Array.size_modify, rfl, rfl⟩

theorem created_sound (sound : s.Sound) : (s.created info home).Sound := by
  have inside : s.tables.size < (s.furnished info).tables.size := by simp [furnished]
  exact (created_keeps info home).sound ((furnished_grown info sound).sound.marked inside _)

theorem created_represents : (s.created info home).Represents ⟨s.tables.size⟩ ⟨s.objects.size⟩ := by
  right
  rw [(created_keeps info home).unwrap?, unwrap?, proxied, handle?_marked_self]
  rfl

theorem created_unwrap? (sound : s.Sound) {id : TableId} (other : id ≠ ⟨s.tables.size⟩) :
    (s.created info home).unwrap? id = s.unwrap? id := by
  rw [(created_keeps info home).unwrap?, unwrap?, proxied,
    (furnished_grown info sound).sound.handle?_marked other]
  rfl

/-- The new proxy fits no field, and all other values offer what they did. -/
theorem created_acceptedOf (sound : s.Sound) (f : Field) (v : Value) :
    (s.created info home).acceptedOf f v = s.acceptedOf f v := by
  rw [acceptedOf, acceptedOf]
  have same : ((s.created info home).offered v).bind (Crossing.fitted? f.kind) =
      (s.offered v).bind (Crossing.fitted? f.kind) := by
    cases v with
    | table id =>
      by_cases new : id = ⟨s.tables.size⟩
      · have unmade : s.unwrap? id = none := by
          rw [unwrap?, sound.handle_eq_none (by rw [new]), Option.map_none]
        rw [offered, offered, unmade, new]
        rcases created_represents (s := s) info home with stands | stands <;> rw [stands] <;>
          cases f.kind <;> rfl
      · rw [offered, offered, created_unwrap? info home sound new]
    | _ => rfl
  rw [same]

end

end Machine

namespace Published

variable {s t : Machine} {i values home : TableId} {o : ObjectId} {results : List Value}
  {policy : AssignPolicy} {info : HostClass} {call : Caller}

theorem runOn_construct (info : HostClass) (s : Machine) :
    (onObjects .host info.construct : BoundaryM ObjectId).runOn s =
      (.ok ⟨s.objects.size⟩, { s with
        objects := (s.objects.add { shape := info.shape, fields := info.initial }).2 }) := rfl

theorem runOn_proxyOfPointer (o : ObjectId) (s : Machine) :
    (crossed (Crossing.proxyOfPointer (some o))).runOn s =
      (.ok ⟨s.tables.size⟩, { s with tables := s.tables.push .empty }.marked ⟨s.tables.size⟩
        (s.handleOf (.ptr (some o)))) := rfl

/-- What a class does with the arguments of `new` once there is an object. -/
def initialized (call : Caller) (home id : TableId) (init : Option Value) :
    BoundaryM (List Value) :=
  match init with
  | none => return [.table id]
  | some init => do
    let set ← expectFunction (← ScriptM.indexFor call (.table home) (.text "set"))
    discard (ScriptM.runFor call set [.table id, init])
    return [.table id]

theorem runOn_classNew (init : Option Value) :
    (classNew call info (.table home :: init.toList)).runOn s =
      (initialized call home ⟨s.tables.size⟩ init).runOn (s.created info home) := by
  cases init with
  | none =>
    rw [classNew, if_neg (by simp)]
    dsimp only [Option.toList, List.head?]
    rw [runOn_bind_ok (runOn_construct info s), runOn_bind_ok (runOn_proxyOfPointer _ _)]
    rfl
  | some init =>
    rw [classNew, if_neg (by simp)]
    dsimp only [Option.toList, List.head?]
    rw [runOn_bind_ok (runOn_construct info s), runOn_bind_ok (runOn_proxyOfPointer _ _)]
    rfl

end Published

/-! ## Calls of the functions -/

namespace Machine

variable {s t u v : Machine} {id : TableId}

theorem Grown.aside (before : s.Aside t) (grown : Grown id t u) (after : u.Aside v) :
    Grown id s v := by
  obtain ⟨_, _, rfl⟩ := before
  obtain ⟨_, _, rfl⟩ := after
  exact ⟨grown.sound, grown.size_le, grown.tables, grown.handles, grown.objects, grown.layered⟩

theorem FieldTable.aside {rows : List (Field × Datum)} (before : s.Aside t)
    (table : FieldTable id t u rows) (after : u.Aside v) : FieldTable id s v rows := by
  obtain ⟨_, _, rfl⟩ := before
  obtain ⟨_, _, rfl⟩ := after
  refine ⟨table.new, fun row among => ?_, table.only⟩
  obtain ⟨w, ⟨a, b, first, run, last⟩, found⟩ := table.entries row among
  exact ⟨w, ⟨a, b, first.aside ⟨_, _, rfl⟩ (.refl a), run, last.aside (.refl b) ⟨_, _, rfl⟩⟩, found⟩

end Machine

namespace Calls

open Machine ScriptM Published

variable {s t : Machine} {depth : Nat} {site : CallSite} {f g : FunctionId}
  {i values home : TableId} {results args : List Value} {policy : AssignPolicy} {info : HostClass}
  {call : Caller}

theorem native_classGet (crosses : ∀ v ∈ args, v.Crosses) :
    native call .classGet args = ofHost (classGet args) := by
  unfold native
  dsimp only
  rw [mapM_receive_of_crosses crosses, pure_bind]

theorem native_classSet (crosses : ∀ v ∈ args, v.Crosses) :
    native call (.classSet policy) args = ofHost (classSet policy args) := by
  unfold native
  dsimp only
  rw [mapM_receive_of_crosses crosses, pure_bind]

theorem native_classNew (crosses : ∀ v ∈ args, v.Crosses) :
    native call (.classNew info) args = ofHost (classNew call info args) := by
  unfold native
  dsimp only
  rw [mapM_receive_of_crosses crosses, pure_bind]

theorem crosses_table {i : TableId} : ∀ v ∈ [Value.table i], v.Crosses := by
  intro v among
  obtain rfl := List.mem_singleton.1 among
  exact nofun

theorem crosses_tables {i j : TableId} : ∀ v ∈ [Value.table i, .table j], v.Crosses := by
  intro v among
  rcases List.mem_pair.1 among with rfl | rfl <;> exact nofun

/-- Reading an object gives a new table of its public fields, and adds to the machine only. -/
theorem callAt_classGet_ok (sound : s.Sound)
    (found : s.functions[f.index]? = some (.native .classGet))
    (run : (callAt depth site (.function f) [.table i]).runOn s = (.ok results, t)) :
    ∃ o id, s.Represents i o ∧ results = [.table id] ∧
      (((s.objects.get o).shape.fields.map (·.name)).Nodup →
        FieldTable id s t (publicRows (s.objects.get o).shape.fields (s.objects.get o).fields)) ∧
      t.Sound ∧ s.objects.Extends t.objects := by
  obtain ⟨below, u, v, before, ran, after⟩ := callAt_native_ok found run
  rw [native_classGet crosses_table, runOn_ofHost_eq_ok] at ran
  obtain ⟨o, id, proxy, rfl, table⟩ := runOn_classGet_ok ran
  obtain ⟨grown, holds⟩ := Crossing.fieldTable_ok ((KeepsProxies.of_aside before).sound sound) table
  have whole : Grown _ s t := Grown.aside before grown after
  refine ⟨o, id, ?_, rfl, fun distinct => ?_, whole.sound, whole.objects⟩
  · obtain ⟨_, _, rfl⟩ := before
    exact proxy
  · have inner := holds (by
      obtain ⟨_, _, rfl⟩ := before
      exact distinct)
    obtain ⟨_, _, rfl⟩ := before
    exact inner.aside ⟨_, _, rfl⟩ after

/-- An assignment changes the fields of its object only. -/
theorem callAt_classSet_ok {o : ObjectId}
    (found : s.functions[f.index]? = some (.native (.classSet policy)))
    (run : (callAt depth site (.function f) [.table i, .table values]).runOn s = (.ok results, t))
    (proxy : s.Represents i o)
    (declared : (s.objects.get o).Declared) :
    s.KeepsProxies t ∧ t.objects = s.objects.put o (updated (s.objects.get o).shape.fields
      (s.objects.get o).fields (s.brought values)) := by
  obtain ⟨below, u, v, before, ran, after⟩ := callAt_native_ok found run
  rw [native_classSet crosses_tables, runOn_ofHost_eq_ok] at ran
  obtain ⟨p, also, assigned⟩ := runOn_classSet_ok ran
  obtain ⟨frames, nesting, rfl⟩ := before
  obtain rfl : p = o := Machine.Represents.unique also proxy
  obtain ⟨faults, rfl⟩ :=
    Crossing.runOn_assign_ok (s := { s with frames, nesting }) declared assigned
  obtain ⟨_, _, rfl⟩ := after
  exact ⟨⟨rfl, rfl, rfl⟩, rfl⟩

/-- An object that was made takes its table by a call of `set` of its class. -/
theorem runOn_initialized_ok {id : TableId} (setter : s.held home "set" = .function g)
    (run : (initialized (callAt depth) home id (some (.table values))).runOn s =
      (.ok results, t)) :
    results = [.table id] ∧ ∃ none,
      (callAt depth {} (.function g) [.table id, .table values]).runOn (s.searched home "set") =
        (.ok none, t) := by
  have fetched : (indexFor (callAt depth) (.table home) (.text "set")).runOn s = _ :=
    runOn_indexFor setter nofun nofun
  have expected : (expectFunction (.function g)).runOn (s.searched home "set") =
      (.ok (.function g), s.searched home "set") := rfl
  rw [initialized, runOn_bind_ok fetched, runOn_bind_ok expected] at run
  obtain ⟨_, u, called, done⟩ := runOn_bind_eq_ok.1 run
  cases done
  obtain ⟨none, w, ran, done⟩ := runOn_bind_eq_ok.1 called
  cases done
  exact ⟨rfl, none, runOn_protect_eq_ok.1 ran⟩

/-- Making an object of a class gives a new proxy for a new object. -/
theorem callAt_classNew_ok (found : s.functions[f.index]? = some (.native (.classNew info)))
    (run : (callAt depth site (.function f) [.table home]).runOn s = (.ok results, t)) :
    results = [.table ⟨s.tables.size⟩] ∧ (s.created info home).KeepsProxies t ∧
      t.objects = (s.objects.add { shape := info.shape, fields := info.initial }).2 := by
  obtain ⟨below, u, v, before, ran, after⟩ := callAt_native_ok found run
  rw [native_classNew crosses_table, runOn_ofHost_eq_ok] at ran
  have made := (runOn_classNew none).symm.trans ran
  cases made
  obtain ⟨_, _, rfl⟩ := before
  obtain ⟨_, _, rfl⟩ := after
  exact ⟨rfl, ⟨rfl, rfl, rfl⟩, rfl⟩

/-- Given a table, the new object takes it as `set` of its class would have it. -/
theorem callAt_classNew_table_ok (sound : s.Sound)
    (found : s.functions[f.index]? = some (.native (.classNew info))) (declared : info.Declared)
    (setter : s.held home "set" = .function g)
    (assigns : s.functions[g.index]? = some (.native (.classSet policy)))
    (run : (callAt depth site (.function f) [.table home, .table values]).runOn s =
      (.ok results, t)) :
    results = [.table ⟨s.tables.size⟩] ∧ (s.created info home).KeepsProxies t ∧
      t.objects = (s.objects.add { shape := info.shape, fields := info.initial }).2.put
        ⟨s.objects.size⟩ (updated info.shape.fields info.initial
          (s.brought values)) := by
  obtain ⟨below, u, v, before, ran, after⟩ := callAt_native_ok found run
  rw [native_classNew crosses_tables, runOn_ofHost_eq_ok] at ran
  have made : (initialized (callAt below) home ⟨u.tables.size⟩ (some (.table values))).runOn
      (u.created info home) = (.ok results, v) :=
    (runOn_classNew (some (.table values))).symm.trans ran
  have kept : (u.created info home).held home "set" = .function g := by
    rw [created_held]
    obtain ⟨_, _, rfl⟩ := before
    exact setter
  obtain ⟨rfl, none, called⟩ := runOn_initialized_ok kept made
  have searched := KeepsProxies.searched (u.created info home) home "set"
  have objects : ((u.created info home).searched home "set").objects =
      (u.objects.add { shape := info.shape, fields := info.initial }).2 :=
    objects_searched _ home "set"
  have fresh : ((u.created info home).searched home "set").objects.get ⟨u.objects.size⟩ =
      { shape := info.shape, fields := info.initial } := by
    rw [objects]
    exact Objects.get_add_self u.objects _
  have same : ((u.created info home).searched home "set").brought values = u.brought values :=
    brought_congr
      (fun f w => (searched.acceptedOf f w).trans
        (created_acceptedOf info home ((KeepsProxies.of_aside before).sound sound) f w))
      fun name => (held_searched ..).trans (created_held info home values name)
  obtain ⟨keeps, put⟩ := callAt_classSet_ok (by
      rw [functions_searched]
      obtain ⟨_, _, rfl⟩ := before
      exact assigns) called (searched.represents.2 (created_represents info home)) (by
      rw [fresh]
      exact ⟨declared.shape, declared.full⟩)
  rw [fresh, same, objects] at put
  have whole := searched.trans keeps
  obtain ⟨_, _, rfl⟩ := before
  obtain ⟨_, _, rfl⟩ := after
  exact ⟨rfl, ⟨whole.size, whole.proxies, whole.handles⟩, put⟩

end Calls

end ScriptHost
