import ScriptHost.Boundary.Publisher
import ScriptHost.Host.Store
import ScriptHost.Proofs.CachedModules
import ScriptHost.Proofs.DialectRuns
import ScriptHost.Proofs.Rebuilding
import ScriptHost.Proofs.RegistryViews

/-!
# Published names

A publisher sets the names of a table one after the other: the methods of an object and then the
items of a package, or the functions that all classes have and then the methods of the class.  A
table has under each name what was set last.  So the items of a package are all there, but a method
is not where an item or a later method has its name, and neither is one of the functions of all
classes where a method has its name.
-/

namespace ScriptHost

open MachineM ScriptM

/-! ## The last pair under a name -/

section

variable {α β : Type} {pairs : List (String × α)} {x : String} {a : α}

def lastUnder (x : String) (pairs : List (String × α)) : Option α := pairs.reverse.lookup x

theorem lastUnder_append (x : String) (first second : List (String × α)) :
    lastUnder x (first ++ second) = (lastUnder x second).or (lastUnder x first) := by
  rw [lastUnder, List.reverse_append, List.lookup_append]
  rfl

theorem lastUnder_concat (x : String) (pairs : List (String × α)) (name : String) (a : α) :
    lastUnder x (pairs ++ [(name, a)]) = if x = name then some a else lastUnder x pairs := by
  rw [lastUnder, List.reverse_append]
  exact lookup_pair_cons name a pairs.reverse x

theorem lastUnder_eq_none : lastUnder x pairs = none ↔ ∀ pair ∈ pairs, pair.1 ≠ x := by
  simp only [lastUnder, List.lookup_eq_none_iff, List.mem_reverse, bne_iff_ne, ne_comm]

theorem lastUnder_map (f : α → β) (x : String) (pairs : List (String × α)) :
    lastUnder x (pairs.map fun pair => (pair.1, f pair.2)) = (lastUnder x pairs).map f := by
  rw [lastUnder, lastUnder, ← List.map_reverse]
  induction pairs.reverse with
  | nil => rfl
  | cons pair rest ih =>
    rw [List.map_cons, lookup_pair_cons, lookup_pair_cons, ih]
    split <;> rfl

theorem mem_of_lastUnder (last : lastUnder x pairs = some a) : (x, a) ∈ pairs := by
  obtain ⟨before, after, parts, -⟩ := List.lookup_eq_some_iff.1 last
  rw [← List.mem_reverse, parts]
  simp

theorem lastUnder_of_nodup (distinct : (pairs.map (·.1)).Nodup) (among : (x, a) ∈ pairs) :
    lastUnder x pairs = some a := by
  obtain ⟨before, after, rfl⟩ := List.append_of_mem among
  have later : lastUnder x after = none := by
    refine lastUnder_eq_none.2 fun pair beyond same => ?_
    rw [List.map_append, List.map_cons, List.nodup_append, List.nodup_cons] at distinct
    exact distinct.2.1.1 (List.mem_map.2 ⟨pair, beyond, same⟩)
  rw [List.append_cons, lastUnder_append, later, lastUnder_concat, if_pos rfl, Option.none_or]

end

theorem Value.crosses_function (id : FunctionId) : (Value.function id).Crosses := nofun

theorem Value.crosses_table (id : TableId) : (Value.table id).Crosses := nofun

/-! ## What is published -/

/-- What a table is to have under a name. -/
inductive Binding where
  | native (n : Native)
  /-- A table of its own for a class. -/
  | type (info : HostClass)
  /-- The table itself. -/
  | self

def Entry.binding : Entry → Binding
  | .function info => .native (.host info.call)
  | .type info => .type info

namespace Publisher

variable (b : Publisher)

/-- What the table of a class gets, in order. -/
def classBindings (info : HostClass) : List (String × Binding) :=
  ("__index", .self) :: (b.classNatives info).map fun pair => (pair.1, .native pair.2)

end Publisher

/-- What a proxy gets, in order. -/
def objectBindings (o : ObjectId) (methods : List HostMethod) (items : List Entry) :
    List (String × Binding) :=
  (methods.map fun m => (m.name, .native (.bound o m))) ++ items.map fun e => (e.name, e.binding)

namespace Machine

/-- A native function stands under a name of a table. -/
def Offers (s : Machine) (id : TableId) (x : String) (n : ScriptHost.Native) : Prop :=
  ∃ f, s.held id x = .function f ∧ s.functions[f.index]? = some (.native n)

/--
What was published last under a name stands there.  The table of a class is newer than the table
that it is in, and has in turn what was published last under each of its names.
-/
inductive Shows (b : Publisher) (s : Machine) : TableId → String → Option Binding → Prop where
  | nothing {id : TableId} {x : String} (absent : s.held id x = .nil) : Shows b s id x none
  | native {id : TableId} {x : String} {n : ScriptHost.Native} (offers : s.Offers id x n) :
      Shows b s id x (some (.native n))
  | self {id : TableId} {x : String} (there : s.held id x = .table id) : Shows b s id x (some .self)
  | type {home id : TableId} {x : String} {info : HostClass} (there : s.held home x = .table id)
      (newer : home.index < id.index) (known : id.index < s.tables.size)
      (names : ∀ y, Shows b s id y (lastUnder y (b.classBindings info))) :
      Shows b s home x (some (.type info))

/--
A table without a metatable in which names were published one after the other, and which has no
other keys.
-/
structure ShowsAll (b : Publisher) (s : Machine) (id : TableId) (bindings : List (String × Binding)) :
    Prop where
  known : id.index < s.tables.size
  plain : (s.tables[id.index]?.getD default).metatable = none
  texts (key v : Value) (inside : (key, v) ∈ s.pairsOf id) : ∃ x, key = .text x
  shows (x : String) : s.Shows b id x (lastUnder x bindings)

variable {b : Publisher} {s t : Machine} {id home : TableId} {x name : String} {v : Value}
  {n : ScriptHost.Native} {binding : Binding} {bindings : List (String × Binding)}

/-! ## Machines that grow -/

theorem held_congr (same : t.tables[id.index]? = s.tables[id.index]?) (x : String) :
    t.held id x = s.held id x := by
  rw [held, held, same]

theorem Offers.mono (offers : s.Offers id x n) (held : t.held id x = s.held id x)
    (functions : ∃ more, t.functions = s.functions ++ more) : t.Offers id x n := by
  obtain ⟨f, there, is⟩ := offers
  obtain ⟨more, functions⟩ := functions
  refine ⟨f, held.trans there, ?_⟩
  rw [functions, Array.getElem?_append_left (Array.getElem?_eq_some_iff.1 is).1, is]

/-- What a table shows under a name depends on that entry and on newer tables. -/
theorem Shows.mono {last : Option Binding} (shows : s.Shows b id x last)
    (held : t.held id x = s.held id x) (size_le : s.tables.size ≤ t.tables.size)
    (tables : ∀ other : TableId, id.index < other.index → other.index < s.tables.size →
      t.tables[other.index]? = s.tables[other.index]?)
    (functions : ∃ more, t.functions = s.functions ++ more) : t.Shows b id x last := by
  induction shows with
  | nothing absent => exact .nothing (held.trans absent)
  | native offers => exact .native (offers.mono held functions)
  | self there => exact .self (held.trans there)
  | type there newer known _ ih =>
    exact .type (held.trans there) newer (Nat.lt_of_lt_of_le known size_le) fun y =>
      ih y (held_congr (tables _ newer known) y) fun other above =>
        tables other (Nat.lt_trans newer above)

theorem Gains.searched (s : Machine) (id : TableId) (name : String) :
    Gains id s (s.searched id name) := by
  unfold Machine.searched
  split
  · exact .modifyTable id s _
  · exact .refl id s

/-- In a new table nothing was published. -/
theorem ShowsAll.empty (new : s.tables[id.index]? = some .empty) : s.ShowsAll b id [] := by
  refine ⟨(Array.getElem?_eq_some_iff.1 new).1, ?_, fun key v inside => ?_, fun x => .nothing ?_⟩
  · rw [new]
    rfl
  · rw [pairsOf, new, Option.getD_some, Table.mem_live, Table.get_empty] at inside
    exact absurd inside.2.1.symm inside.2.2
  · rw [held, new, Option.getD_some, Table.get_empty]

/-- What a table shows depends on it and on newer tables. -/
theorem ShowsAll.keep (all : s.ShowsAll b id bindings) (size_le : s.tables.size ≤ t.tables.size)
    (tables : ∀ other : TableId, id.index ≤ other.index → other.index < s.tables.size →
      t.tables[other.index]? = s.tables[other.index]?)
    (functions : ∃ more, t.functions = s.functions ++ more) : t.ShowsAll b id bindings := by
  have same := tables id (Nat.le_refl _) all.known
  refine ⟨Nat.lt_of_lt_of_le all.known size_le, ?_, fun key v inside => ?_, fun x => ?_⟩
  · rw [same]
    exact all.plain
  · rw [pairsOf_congr same] at inside
    exact all.texts key v inside
  · exact (all.shows x).mono (held_congr same x) size_le
      (fun other above => tables other (Nat.le_of_lt above)) functions

/-- A change of an older table, or of a new one, leaves a table as it is. -/
theorem ShowsAll.mono (all : s.ShowsAll b id bindings) {changed : TableId}
    (gains : Gains changed s t)
    (beside : changed.index < id.index ∨ s.tables.size ≤ changed.index) :
    t.ShowsAll b id bindings :=
  all.keep gains.size_le
    (fun other above inside => gains.tables other (by rintro rfl; omega) inside) gains.functions

/-- The machine after a value was set in a table. -/
def storing (s : Machine) (id : TableId) (name : String) (v : Value) : Machine :=
  (s.searched id name).entering id name v

theorem Gains.storing (s : Machine) (id : TableId) (name : String) (v : Value) :
    Gains id s (s.storing id name v) :=
  (Gains.searched s id name).trans (.modifyTable id _ _)

theorem held_storing (known : id.index < s.tables.size) (name x : String) (v : Value) :
    (s.storing id name v).held id x = if x = name then v else s.held id x := by
  rw [Machine.storing, held_entering (by rwa [size_tables_searched]), held_searched]

/-- A value that is set comes under its name only. -/
theorem mem_pairsOf_storing {key w : Value} (inside : (key, w) ∈ (s.storing id name v).pairsOf id) :
    key = .text name ∨ (key, w) ∈ s.pairsOf id := by
  rw [← pairsOf_searched s id name id]
  rw [Machine.storing, entering, pairsOf, Array.getElem?_modify, if_pos rfl] at inside
  rw [pairsOf]
  cases there : (s.searched id name).tables[id.index]? with
  | none =>
    rw [there] at inside
    exact .inr inside
  | some table =>
    rw [there, Option.map_some, Option.getD_some, Table.mem_live, Table.get_set] at inside
    obtain ⟨final, found, present⟩ := inside
    split at found
    · next same => exact .inl (final.symm.trans same)
    · exact .inr (Table.mem_live.2 ⟨final, found, present⟩)

/-- Publishing a name once more leaves the other names as they were. -/
theorem ShowsAll.storing (all : s.ShowsAll b id bindings)
    (shown : (s.storing id name v).Shows b id name (some binding)) :
    (s.storing id name v).ShowsAll b id (bindings ++ [(name, binding)]) := by
  have gains := Gains.storing s id name v
  refine ⟨Nat.lt_of_lt_of_le all.known gains.size_le, ?_, fun key w inside => ?_, fun x => ?_⟩
  · rw [Machine.storing, metatable_entering, metatable_searched]
    exact all.plain
  · rcases mem_pairsOf_storing inside with same | inside
    · exact ⟨name, same⟩
    · exact all.texts key w inside
  · rw [lastUnder_concat]
    by_cases here : x = name
    · rw [if_pos here, here]
      exact shown
    · rw [if_neg here]
      refine (all.shows x).mono ?_ gains.size_le (fun other above =>
        gains.tables other (by rintro rfl; omega)) gains.functions
      rw [held_storing all.known, if_neg here]

end Machine

/-! ## Publishing -/

namespace Publisher

open Machine

variable {b : Publisher} {s t : Machine} {id home : TableId} {name package : String} {v : Value}
  {bindings : List (String × Binding)}

theorem runOn_discard {ε α : Type} {m : MachineM ε α} {a : α} (run : m.runOn s = (.ok a, t)) :
    (discard m).runOn s = (.ok (), t) := by
  have mapped : (discard m : MachineM ε Unit) = (fun _ => ()) <$> m := rfl
  rw [mapped, runOn_map, run]
  rfl

theorem runOn_set (all : s.ShowsAll b id bindings) (crosses : v.Crosses) :
    (b.set id name v).runOn s = (.ok (), s.storing id name v) := by
  rw [set, runOn_mapError_ok (runOn_storeFor (fun _ => all.plain) crosses)]
  rfl

theorem runOn_publishNative (all : s.ShowsAll b id bindings) (name : String) (n : Native) :
    ∃ f t, (b.publishNative (some id) name n).runOn s = (.ok f, t) ∧ Gains id s t ∧
      t.ShowsAll b id (bindings ++ [(name, .native n)]) := by
  let f : Value := .function ⟨s.functions.size⟩
  let made : Machine := { s with functions := s.functions.push (.native n) }
  have grown := all.mono (Gains.newFunction ⟨s.tables.size⟩ s (.native n)) (.inr (Nat.le_refl _))
  refine ⟨f, made.storing id name f, ?_, (Gains.newFunction id s _).trans (.storing made id name f),
    grown.storing (.native ⟨⟨s.functions.size⟩, ?_, ?_⟩)⟩
  · have created : (newNative n : PublishM Value).runOn s = (.ok f, made) := rfl
    rw [publishNative, runOn_bind_ok created]
    exact runOn_bind_ok (runOn_set grown (Value.crosses_function _)) _
  · rw [held_storing grown.known, if_pos rfl]
  · obtain ⟨more, functions⟩ := (Gains.storing made id name f).functions
    rw [functions, Array.getElem?_append_left (by simp [made])]
    simp [made]

/-- Functions are published from the first to the last. -/
theorem runOn_setNatives (all : s.ShowsAll b id bindings) (natives : List (String × Native)) :
    ∃ t, (b.setNatives id natives).runOn s = (.ok (), t) ∧ Gains id s t ∧
      t.ShowsAll b id (bindings ++ natives.map fun pair => (pair.1, .native pair.2)) := by
  induction natives generalizing s bindings with
  | nil => exact ⟨s, rfl, .refl id s, by simpa using all⟩
  | cons pair rest ih =>
    obtain ⟨f, t, first, gains, published⟩ := runOn_publishNative all pair.1 pair.2
    obtain ⟨u, others, more, shown⟩ := ih published
    refine ⟨u, ?_, gains.trans more, by simpa using shown⟩
    rw [setNatives, runOn_bind_ok (runOn_discard first), others]

/-- The table of a class is new and has all that a class has. -/
theorem runOn_publishClass (b : Publisher) (info : HostClass) (s : Machine) :
    ∃ t, (b.publishClass info).runOn s = (.ok ⟨s.tables.size⟩, t) ∧
      Gains ⟨s.tables.size⟩ s t ∧ t.ShowsAll b ⟨s.tables.size⟩ (b.classBindings info) := by
  let id : TableId := ⟨s.tables.size⟩
  let made : Machine := { s with tables := s.tables.push .empty }
  have empty : made.ShowsAll b id [] := .empty (by simp [made, id])
  have itself : (made.storing id "__index" (.table id)).Shows b id "__index" (some .self) := by
    refine .self ?_
    rw [held_storing empty.known, if_pos rfl]
  have index := empty.storing itself
  obtain ⟨t, published, gains, all⟩ := runOn_setNatives index (b.classNatives info)
  refine ⟨t, ?_, ((Gains.newTable id s .empty).trans (.storing made id _ _)).trans gains, all⟩
  have created : (newTable : PublishM TableId).runOn s = (.ok id, made) := rfl
  rw [publishClass, runOn_bind_ok created, runOn_bind_ok (runOn_set empty (Value.crosses_table _)),
    runOn_bind_ok published]
  rfl

theorem runOn_publishEntry (all : s.ShowsAll b home bindings) (e : Entry) :
    ∃ t, (b.publishEntry home e).runOn s = (.ok (), t) ∧ Gains home s t ∧
      t.ShowsAll b home (bindings ++ [(e.name, e.binding)]) := by
  cases e with
  | function info =>
    obtain ⟨f, t, published, gains, shown⟩ :=
      runOn_publishNative all info.name (.host info.call)
    exact ⟨t, runOn_discard published, gains, shown⟩
  | type info =>
    obtain ⟨t, published, gains, names⟩ := runOn_publishClass b info s
    have kept := all.mono gains (.inr (Nat.le_refl _))
    have storing := Gains.storing t home info.shape.name (.table ⟨s.tables.size⟩)
    have newer : home.index < s.tables.size := all.known
    refine ⟨t.storing home info.shape.name (.table ⟨s.tables.size⟩), ?_,
      (gains.elsewhere (Nat.le_refl _)).trans storing,
      kept.storing (.type ?_ newer (Nat.lt_of_lt_of_le names.known storing.size_le) fun y => ?_)⟩
    · rw [publishEntry, runOn_bind_ok published]
      exact runOn_set kept (Value.crosses_table _)
    · rw [held_storing kept.known, if_pos rfl]
      rfl
    · -- the table of the class is another one than that which gets it
      have apart (other : TableId) (above : s.tables.size ≤ other.index) : other ≠ home := by
        rintro rfl
        exact Nat.lt_irrefl _ (Nat.lt_of_lt_of_le newer above)
      exact (names.shows y).mono
        (held_congr (storing.tables _ (apart _ (Nat.le_refl _)) names.known) y) storing.size_le
        (fun other above => storing.tables other (apart other (Nat.le_of_lt above)))
        storing.functions

theorem runOn_publishEntries (all : s.ShowsAll b home bindings) (items : List Entry) :
    ∃ t, (b.publishEntries home items).runOn s = (.ok (), t) ∧ Gains home s t ∧
      t.ShowsAll b home (bindings ++ items.map fun e => (e.name, e.binding)) := by
  induction items generalizing s bindings with
  | nil => exact ⟨s, rfl, .refl home s, by simpa using all⟩
  | cons e rest ih =>
    obtain ⟨t, first, gains, published⟩ := runOn_publishEntry all e
    obtain ⟨u, others, more, shown⟩ := ih published
    refine ⟨u, ?_, gains.trans more, by simpa using shown⟩
    rw [publishEntries, runOn_bind_ok first, others]

/-- The machine with a proxy that has no names yet. -/
def pointing (s : Machine) (o : ObjectId) : Machine :=
  { s with tables := s.tables.push .empty }.marked ⟨s.tables.size⟩
    ⟨.ptr (some o), some (s.objects.get o).shape⟩

/-- Before the proxy becomes a global it has all its names. -/
theorem runOn_publishObjectWith (b : Publisher) (name package : String) (o : ObjectId)
    (s : Machine) :
    ∃ t, (b.publishObjectWith name (.ptr (some o)) package).runOn s =
        (do b.setGlobal name (.table ⟨s.tables.size⟩); return ⟨s.tables.size⟩ :
          PublishM TableId).runOn t ∧
      Gains ⟨s.tables.size⟩ (pointing s o) t ∧
      t.ShowsAll b ⟨s.tables.size⟩ (objectBindings o (b.methodsOf (s.objects.get o).shape)
        (b.registry.package package)) := by
  let id : TableId := ⟨s.tables.size⟩
  have empty : (pointing s o).ShowsAll b id [] := .empty (by simp [pointing, marked, id])
  obtain ⟨t, bound, gains, methods⟩ := runOn_setNatives empty
    ((b.methodsOf (s.objects.get o).shape).map fun m => (m.name, .bound o m))
  obtain ⟨u, published, more, all⟩ :=
    runOn_publishEntries methods (b.registry.package package)
  refine ⟨u, ?_, gains.trans more, by simpa [objectBindings, Function.comp_def] using all⟩
  have proxy : (mapError .crossing (Crossing.proxyOfPointer (some o)) : PublishM TableId).runOn s =
      (.ok id, pointing s o) := rfl
  have items : (discard (b.publishPackage id package)).runOn t = (.ok (), u) :=
    runOn_discard (runOn_bind_ok published _)
  rw [publishObjectWith, runOn_bind_ok proxy, runOn_bind_ok (runOn_get _)]
  exact (runOn_bind_ok bound _).trans (runOn_bind_ok items _)

/-- The functions that all classes have. -/
def standard (b : Publisher) (info : HostClass) : List (String × Native) :=
  [("get", .classGet), ("set", .classSet b.policy), ("new", .classNew info)]

end Publisher

/-! ## What is hidden -/

def namedMethods (methods : List HostMethod) : List (String × HostMethod) :=
  methods.map fun m => (m.name, m)

theorem lastUnder_objectBindings (x : String) (o : ObjectId) (methods : List HostMethod)
    (items : List Entry) : lastUnder x (objectBindings o methods items) =
      (lastUnder x (items.map fun e => (e.name, e.binding))).or
        ((lastUnder x (namedMethods methods)).map fun m => .native (.bound o m)) := by
  rw [objectBindings, lastUnder_append, ← lastUnder_map, namedMethods, List.map_map]
  rfl

theorem lastUnder_classBindings (x : String) (b : Publisher) (info : HostClass) :
    lastUnder x (b.classBindings info) =
      ((lastUnder x (namedMethods info.methods)).map fun m => .native (.classMethod m)).or
        (((lastUnder x (b.standard info)).map .native).or (lastUnder x [("__index", .self)])) := by
  have parts : b.classBindings info = [("__index", .self)] ++
      ((b.standard info).map fun pair => (pair.1, .native pair.2)) ++
        (namedMethods info.methods).map fun pair => (pair.1, .native (.classMethod pair.2)) := by
    rw [Publisher.classBindings, Publisher.classNatives, List.map_append, namedMethods,
      List.map_map, List.map_map]
    rfl
  have methods := lastUnder_map (fun m => Binding.native (.classMethod m)) x
    (namedMethods info.methods)
  rw [parts, lastUnder_append, lastUnder_append, lastUnder_map, methods]

namespace Machine

variable {b : Publisher} {s t : Machine} {id : TableId} {x : String}

theorem Shows.offers_iff {last : Option Binding} {n : ScriptHost.Native}
    (shows : s.Shows b id x last) : s.Offers id x n ↔ last = some (.native n) := by
  constructor
  · rintro ⟨f, there, is⟩
    cases shows with
    | nothing absent => cases there.symm.trans absent
    | native offers =>
      obtain ⟨g, also, names⟩ := offers
      cases there.symm.trans also
      cases is.symm.trans names
      rfl
    | self also => cases there.symm.trans also
    | type also => cases there.symm.trans also
  · rintro rfl
    cases shows with
    | native offers => exact offers

/-- A proxy with the methods of its object and with items: what comes last hides the others. -/
structure ShowsObject (b : Publisher) (s : Machine) (id : TableId) (o : ObjectId)
    (methods : List HostMethod) (items : List Entry) : Prop where
  names (x : String) : s.Shows b id x (lastUnder x (objectBindings o methods items))
  item (distinct : (items.map Entry.name).Nodup) (e : Entry) (among : e ∈ items) :
    s.Shows b id e.name (some e.binding)
  method_iff (m : HostMethod) : s.Offers id m.name (.bound o m) ↔
    (∀ e ∈ items, e.name ≠ m.name) ∧ lastUnder m.name (namedMethods methods) = some m

/-- The table of a class: its methods hide the functions that all classes have. -/
structure ShowsClass (b : Publisher) (s : Machine) (id : TableId) (info : HostClass) : Prop where
  names (x : String) : s.Shows b id x (lastUnder x (b.classBindings info))
  standard_iff (x : String) (n : ScriptHost.Native) (among : (x, n) ∈ b.standard info) :
    s.Offers id x n ↔ ∀ m ∈ info.methods, m.name ≠ x
  method_iff (m : HostMethod) : s.Offers id m.name (.classMethod m) ↔
    lastUnder m.name (namedMethods info.methods) = some m

theorem ShowsAll.showsObject {o : ObjectId} {methods : List HostMethod} {items : List Entry}
    (all : s.ShowsAll b id (objectBindings o methods items)) :
    s.ShowsObject b id o methods items := by
  refine ⟨all.shows, fun distinct e among => ?_, fun m => ?_⟩
  · have last : lastUnder e.name (items.map fun e => (e.name, e.binding)) = some e.binding := by
      refine lastUnder_of_nodup ?_ (List.mem_map.2 ⟨e, among, rfl⟩)
      rwa [List.map_map]
    have shown := all.shows e.name
    rwa [lastUnder_objectBindings, last, Option.some_or] at shown
  · rw [(all.shows m.name).offers_iff, lastUnder_objectBindings]
    cases item : lastUnder m.name (items.map fun e => (e.name, e.binding)) with
    | none =>
      have other : ∀ e ∈ items, e.name ≠ m.name :=
        fun e among => lastUnder_eq_none.1 item _ (List.mem_map.2 ⟨e, among, rfl⟩)
      simpa using fun _ => other
    | some binding =>
      obtain ⟨e, among, same⟩ := List.mem_map.1 (mem_of_lastUnder item)
      obtain ⟨named, rfl⟩ := Prod.mk.inj same
      refine iff_of_false (fun bound => ?_) fun free => free.1 e among named
      cases e <;> cases bound

theorem ShowsAll.showsClass {info : HostClass} (all : s.ShowsAll b id (b.classBindings info)) :
    s.ShowsClass b id info := by
  refine ⟨all.shows, fun x n among => ?_, fun m => ?_⟩
  · have last : lastUnder x (b.standard info) = some n := by
      refine lastUnder_of_nodup ?_ among
      simp [Publisher.standard]
    rw [(all.shows x).offers_iff, lastUnder_classBindings, last]
    cases method : lastUnder x (namedMethods info.methods) with
    | none =>
      have other : ∀ m ∈ info.methods, m.name ≠ x :=
        fun m among => lastUnder_eq_none.1 method _ (List.mem_map.2 ⟨m, among, rfl⟩)
      simpa using other
    | some m =>
      obtain ⟨m, inside, same⟩ := List.mem_map.1 (mem_of_lastUnder method)
      obtain ⟨named, rfl⟩ := Prod.mk.inj same
      refine iff_of_false (fun general => ?_) fun free => free m inside named
      simp only [Option.map_some, Option.some_or, Option.some.injEq, Binding.native.injEq]
        at general
      subst general
      simp [Publisher.standard] at among
  · rw [(all.shows m.name).offers_iff, lastUnder_classBindings]
    cases method : lastUnder m.name (namedMethods info.methods) with
    | none =>
      refine iff_of_false (fun general => ?_) (by simp)
      rw [Option.map_none, Option.none_or, Option.or_eq_some_iff, Option.map_eq_some_iff]
        at general
      obtain ⟨n, last, same⟩ | ⟨-, last⟩ := general
      · cases same
        simpa [Publisher.standard] using mem_of_lastUnder last
      · simpa using mem_of_lastUnder last
    | some m => simp

end Machine

namespace Publisher

open Machine

/--
An object is published as a table that shows, under each name, what comes last under it among the
methods of the object and then the items of the package.  So all items are there if their names are
distinct, as they are in a registry built of names without colons, but a method is there exactly if
no item and no later method has its name.  The table has all its names before it
becomes a global, which always goes well unless a metatable of the globals is asked.

The table of a class shows what comes last under each name among `__index`, the three functions of
all classes and then its methods.  So these three are there exactly if no method has their name, and
a method is there exactly if no later one has its name.
-/
theorem last_name_shown (b : Publisher) (name package : String) (o : ObjectId) (info : HostClass)
    (s : Machine) :
    let id : TableId := ⟨s.tables.size⟩
    let methods := b.methodsOf (s.objects.get o).shape
    let items := b.registry.package package
    (∃ t, t.ShowsObject b id o methods items ∧
      (b.publishObjectWith name (.ptr (some o)) package).runOn s =
        (do b.setGlobal name (.table id); return id : PublishM TableId).runOn t) ∧
    (∀ entries : List Entry, (∀ e ∈ entries, e.Plain) →
      b.registry = (Registrations.registerAll {} entries).toRegistry →
        (items.map Entry.name).Nodup) ∧
    (s.globals.index < s.tables.size → s.Unaided s.globals name →
      ∃ t, (b.publishObjectWith name (.ptr (some o)) package).runOn s = (.ok id, t) ∧
        t.held t.globals name = .table id ∧ t.ShowsObject b id o methods items) ∧
    ∃ t, (b.publishClass info).runOn s = (.ok id, t) ∧ t.ShowsClass b id info := by
  intro id methods items
  obtain ⟨t, published, gains, all⟩ := runOn_publishObjectWith b name package o s
  obtain ⟨u, classed, -, names⟩ := runOn_publishClass b info s
  refine ⟨⟨t, all.showsObject, published⟩, fun entries plain built => ?_, fun known unaided => ?_,
    u, classed, names.showsClass⟩
  · simp only [items, built]
    exact Registrations.nodup_package entries plain package
  have inside : s.globals.index < (pointing s o).tables.size := by
    simp [pointing, marked, Nat.lt_succ_of_lt known]
  have globals : t.globals = s.globals := by rw [gains.rest]; rfl
  have same : t.tables[s.globals.index]? = s.tables[s.globals.index]? := by
    rw [gains.tables s.globals (by intro same; rw [same] at known; exact Nat.lt_irrefl _ known)
      inside]
    simp [pointing, marked, Array.getElem?_push, Nat.ne_of_lt known]
  have stored : (b.setGlobal name (.table id)).runOn t =
      (.ok (), t.storing s.globals name (.table id)) := by
    rw [setGlobal, runOn_mapError, setGlobalFor, runOn_bind_ok (runOn_get t), globals,
      runOn_storeFor ?_ (Value.crosses_table id)]
    · rfl
    · rw [held_congr same name, same]
      exact unaided
  have storing := Gains.storing t s.globals name (.table id)
  refine ⟨t.storing s.globals name (.table id), ?_, ?_, (all.mono storing (.inl known)).showsObject⟩
  · rw [published]
    exact runOn_bind_ok stored _
  · have still : (t.storing s.globals name (.table id)).globals = s.globals := by
      rw [storing.rest]
      exact globals
    have there : s.globals.index < t.tables.size := Nat.lt_of_lt_of_le inside gains.size_le
    rw [still, held_storing there, if_pos rfl]

/-- A function with the name of a method of stores. -/
def counting : HostFunction where
  package := "store"
  name := "Len"
  arity := 0
  call args := return [.int (.ofNat args.length)]

def shop : Publisher where
  registry := (Registrations.registerAll {} [.function counting]).toRegistry
  classes := [Store.hostClass]
  call := ScriptHost.call

/-- Stores with a method that is called like one of the functions of all classes. -/
def reader : HostClass := { Store.hostClass with methods := [{ Store.get with name := "get" }] }

/-- A machine with one store. -/
def stocked : Machine where
  tables := #[.empty]
  objects := ⟨#[⟨Store.shape, Store.hostClass.initial, .free⟩]⟩

theorem last_name_shown_counting :
    (∃ t, (shop.publishObjectWith "client" (.ptr (some ⟨0⟩)) "store").runOn stocked = (.ok ⟨1⟩, t) ∧
      t.held t.globals "client" = .table ⟨1⟩ ∧
      t.Offers ⟨1⟩ "Put" (.bound ⟨0⟩ Store.put) ∧ ¬ t.Offers ⟨1⟩ "Len" (.bound ⟨0⟩ Store.len)) ∧
    ∃ t, (shop.publishClass reader).runOn stocked = (.ok ⟨1⟩, t) ∧
      t.Offers ⟨1⟩ "new" (.classNew reader) ∧ ¬ t.Offers ⟨1⟩ "get" .classGet := by
  obtain ⟨-, -, whole, u, classed, names⟩ :=
    last_name_shown shop "client" "store" ⟨0⟩ reader stocked
  obtain ⟨t, published, global, shown⟩ := whole (by decide) fun _ => rfl
  have items : shop.registry.package "store" = [.function counting] := rfl
  rw [items] at shown
  refine ⟨⟨t, published, global, (shown.method_iff Store.put).2 ⟨?_, rfl⟩, fun len => ?_⟩,
    u, classed, (names.standard_iff "new" _ ?_).2 ?_, fun get => ?_⟩
  · simp [Entry.name, counting, Store.put]
    decide
  · exact ((shown.method_iff Store.len).1 len).1 _ List.mem_cons_self rfl
  · simp [standard]
  · simp [reader]
  · exact (names.standard_iff "get" .classGet (by simp [standard])).1 get _ List.mem_cons_self rfl

end Publisher
end ScriptHost
