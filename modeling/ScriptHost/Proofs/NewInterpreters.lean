import ScriptHost.Proofs.DialectRuns

/-!
# New interpreters

No script has run on a new interpreter.  None of its tables has a metatable yet, and the functions
in them are those of the standard modules.  None of these has the name `string`, under which the
first module of a dialect has its function.  The globals lead to the cache of loaded modules by way
of the module `package`, so a resolver finds the cache and can be installed.
-/

namespace ScriptHost

open MachineM

namespace Machine

/-- A new table is like one that is not there. -/
theorem table_push_empty (s : Machine) (id : TableId) :
    (s.tables.push Table.empty)[id.index]?.getD default = s.tables[id.index]?.getD default := by
  rw [Array.getElem?_push]
  split
  · next last => rw [last, Array.getElem?_eq_none (Nat.le_refl _)]; rfl
  · rfl

theorem held_newTable (s : Machine) (id : TableId) (name : String) :
    held { s with tables := s.tables.push .empty } id name = s.held id name :=
  congrArg (·.get (.text name)) (table_push_empty s id)

/-- Without metatables, and without a function under a name in any table. -/
structure Lacks (s : Machine) (name : String) : Prop where
  metatables : ∀ id : TableId, (s.tables[id.index]?.getD default).metatable = none
  functions : ∀ (id : TableId) (f : FunctionId), s.held id name ≠ .function f

namespace Lacks

variable {s t : Machine} {name : String}

/-- No more than the tables decides. -/
theorem of_tables (lacks : s.Lacks name) (same : t.tables = s.tables) : t.Lacks name := by
  refine ⟨fun id => ?_, fun id f => ?_⟩
  · rw [same]
    exact lacks.metatables id
  · rw [held, same]
    exact lacks.functions id f

theorem unaided (lacks : s.Lacks name) (id : TableId) (x : String) : s.Unaided id x :=
  fun _ => lacks.metatables id

theorem searched (lacks : s.Lacks name) (id : TableId) (x : String) :
    (s.searched id x).Lacks name :=
  ⟨fun other => (metatable_searched s id x other).trans (lacks.metatables other), fun other f => by
    rw [held_searched]
    exact lacks.functions other f⟩

/-- Whatever is entered under other names, and what is no function under this one. -/
theorem entering (lacks : s.Lacks name) (id : TableId) {x : String} {v : Value}
    (allowed : x = name → ∀ f, v ≠ .function f) : (s.entering id x v).Lacks name := by
  refine ⟨fun other => (metatable_entering s id other x v).trans (lacks.metatables other),
    fun other f => ?_⟩
  rcases held_entering_or s id other x name v with same | ⟨here, same⟩
  · rw [same]
    exact lacks.functions other f
  · rw [same]
    exact allowed here.symm f

theorem newTable (lacks : s.Lacks name) :
    Lacks { s with tables := s.tables.push .empty } name :=
  ⟨fun id => (congrArg Table.metatable (table_push_empty s id)).trans (lacks.metatables id),
    fun id f => (held_newTable s id name).trans_ne (lacks.functions id f)⟩

end Lacks

/--
The host readies a machine for scripts: the settings and the objects stay, and no table gets a
metatable or a function `string`.
-/
structure Readies (s t : Machine) : Prop where
  globals : t.globals = s.globals
  files : t.files = s.files
  environment : t.environment = s.environment
  objects : t.objects = s.objects
  resolvers : t.resolvers = s.resolvers
  tables : s.tables.size ≤ t.tables.size
  lacks : s.Lacks "string" → t.Lacks "string"

namespace Readies

variable {s t u : Machine}

theorem refl (s : Machine) : s.Readies s := ⟨rfl, rfl, rfl, rfl, rfl, Nat.le_refl _, id⟩

theorem trans (first : s.Readies t) (second : t.Readies u) : s.Readies u :=
  ⟨second.globals.trans first.globals, second.files.trans first.files,
    second.environment.trans first.environment, second.objects.trans first.objects,
    second.resolvers.trans first.resolvers, Nat.le_trans first.tables second.tables,
    fun lacks => second.lacks (first.lacks lacks)⟩

theorem searched (s : Machine) (id : TableId) (name : String) :
    s.Readies (s.searched id name) := by
  have lacks := fun lacks : s.Lacks "string" => lacks.searched id name
  obtain ⟨tables, size, same⟩ := s.searched_eq id name
  rw [same] at lacks ⊢
  exact ⟨rfl, rfl, rfl, rfl, rfl, Nat.le_of_eq size.symm, lacks⟩

theorem newTable (s : Machine) : s.Readies { s with tables := s.tables.push .empty } :=
  ⟨rfl, rfl, rfl, rfl, rfl, by simp, .newTable⟩

theorem bind {ε α β : Type} {m : MachineM ε α} {f : α → MachineM ε β}
    (first : s.Readies (m.runOn s).2)
    (rest : ∀ a t, s.Readies t → t.Readies ((f a).runOn t).2) :
    s.Readies ((m >>= f).runOn s).2 := by
  refine runOn_bind_trans .trans first fun a t result => rest a t ?_
  rwa [result] at first

end Readies

/-! ## Steps of an installation -/

/--
What the installation of an interpreter makes of a machine, step by step.  Only values that are
allowed under a name are entered under it.
-/
inductive Installs (allowed : String → Value → Prop) (s : Machine) : Machine → Prop where
  | refl : Installs allowed s s
  | newTable {t : Machine} (before : Installs allowed s t) :
      Installs allowed s { t with tables := t.tables.push .empty }
  | newNative {t : Machine} (before : Installs allowed s t) (n : ScriptHost.Native) :
      Installs allowed s { t with functions := t.functions.push (.native n) }
  | newUserdata {t : Machine} (before : Installs allowed s t) :
      Installs allowed s { t with userdata := t.userdata + 1 }
  | searched {t : Machine} (before : Installs allowed s t) (id : TableId) (name : String) :
      Installs allowed s (t.searched id name)
  | entering {t : Machine} (before : Installs allowed s t) (id : TableId) {name : String}
      {v : Value} (may : allowed name v) : Installs allowed s (t.entering id name v)
  | equipped {t : Machine} (before : Installs allowed s t) (package : TableId)
      (stringMeta streamMeta : Option TableId) (nextFunction nextItemFunction : Value) :
      Installs allowed s
        { t with package, stringMeta, streamMeta, nextFunction, nextItemFunction }

namespace Installs

variable {s t u : Machine} {allowed : String → Value → Prop}

/-- Further steps, which may be bound to less. -/
theorem after {less : String → Value → Prop} (first : s.Installs allowed t)
    (second : t.Installs less u) (within : ∀ name v, less name v → allowed name v) :
    s.Installs allowed u := by
  induction second with
  | refl => exact first
  | newTable _ ih => exact ih.newTable
  | newNative _ n ih => exact ih.newNative n
  | newUserdata _ ih => exact ih.newUserdata
  | searched _ id name ih => exact ih.searched id name
  | entering _ id may ih => exact ih.entering id (within _ _ may)
  | equipped _ package strings streams next nextItem ih =>
    exact ih.equipped package strings streams next nextItem

theorem trans (first : s.Installs allowed t) (second : t.Installs allowed u) :
    s.Installs allowed u := first.after second fun _ _ => id

theorem mono {more : String → Value → Prop} (installs : s.Installs allowed t)
    (weaker : ∀ name v, allowed name v → more name v) : s.Installs more t :=
  Installs.refl.after installs weaker

theorem readies (functions : ∀ v, allowed "string" v → ∀ f, v ≠ .function f)
    (installs : s.Installs allowed t) : s.Readies t := by
  induction installs with
  | refl => exact .refl s
  | newTable _ ih => exact ih.trans (.newTable _)
  | newNative _ _ ih =>
    exact ih.trans ⟨rfl, rfl, rfl, rfl, rfl, Nat.le_refl _, fun lacks => lacks.of_tables rfl⟩
  | newUserdata _ ih =>
    exact ih.trans ⟨rfl, rfl, rfl, rfl, rfl, Nat.le_refl _, fun lacks => lacks.of_tables rfl⟩
  | searched _ id name ih => exact ih.trans (.searched _ id name)
  | @entering _ _ id name v may ih =>
    refine ih.trans ⟨rfl, rfl, rfl, rfl, rfl, by simp [Machine.entering], fun lacks =>
      lacks.entering id ?_⟩
    rintro rfl
    exact functions v may
  | equipped _ _ _ _ _ _ ih =>
    exact ih.trans ⟨rfl, rfl, rfl, rfl, rfl, Nat.le_refl _, fun lacks => lacks.of_tables rfl⟩

/-- A table has under a name what it had there, or a value that is allowed there. -/
theorem held (name : String) (installs : s.Installs allowed t) (id : TableId) :
    t.held id name = s.held id name ∨ allowed name (t.held id name) := by
  induction installs with
  | refl => exact .inl rfl
  | newTable _ ih => rwa [held_newTable]
  | newNative _ _ ih => exact ih
  | newUserdata _ ih => exact ih
  | searched _ other x ih => rwa [held_searched]
  | @entering t _ other x v may ih =>
    rcases held_entering_or t other id x name v with same | ⟨here, same⟩
    · rwa [same]
    · exact .inr (by rwa [same, here])
  | equipped _ _ _ _ _ _ ih => exact ih

/-- The cache of loaded modules is never another table. -/
theorem loaded (installs : s.Installs allowed t) : t.loaded = s.loaded := by
  induction installs with
  | refl => rfl
  | searched _ id name ih =>
    obtain ⟨tables, -, same⟩ := searched_eq _ id name
    rw [same]
    exact ih
  | _ => assumption

end Installs

end Machine

namespace Interpreter

/-- Computations that go well and take such steps only. -/
def Installing {ε α : Type} (allowed : String → Value → Prop) (m : MachineM ε α) : Prop :=
  ∀ s : Machine, ∃ a t, m.runOn s = (.ok a, t) ∧ s.Installs allowed t

variable {ε α β : Type} {allowed : String → Value → Prop}

namespace Installing

theorem pure (a : α) : Installing allowed (Pure.pure a : MachineM ε α) := fun s =>
  ⟨a, s, rfl, .refl⟩

theorem get : Installing allowed (MonadState.get : MachineM ε Machine) := fun s =>
  ⟨s, s, rfl, .refl⟩

theorem bind {m : MachineM ε α} {f : α → MachineM ε β} (first : Installing allowed m)
    (rest : ∀ a, Installing allowed (f a)) : Installing allowed (m >>= f) := by
  intro s
  obtain ⟨a, t, run, installs⟩ := first s
  obtain ⟨b, u, more, also⟩ := rest a t
  exact ⟨b, u, (runOn_bind_ok run f).trans more, installs.trans also⟩

theorem map {m : MachineM ε α} (f : α → β) (inner : Installing allowed m) :
    Installing allowed (f <$> m) := by
  rw [map_eq_pure_bind]
  exact inner.bind fun a => .pure (f a)

theorem newTable : Installing allowed (MachineM.newTable : MachineM ε TableId) := fun s =>
  ⟨_, _, runOn_newTable _ s, .newTable .refl⟩

theorem newNative (n : Native) :
    Installing allowed (MachineM.newNative n : MachineM ε Value) := fun _ =>
  ⟨_, _, rfl, .newNative .refl n⟩

theorem newUserdata : Installing allowed (MachineM.newUserdata : MachineM ε Value) := fun _ =>
  ⟨_, _, rfl, .newUserdata .refl⟩

theorem rawGet (id : TableId) (name : String) :
    Installing allowed (MachineM.rawGet id (.text name) : MachineM ε Value) := fun s =>
  ⟨_, _, runOn_lookup id name s, .searched .refl id name⟩

theorem rawSet (id : TableId) {name : String} {v : Value} (may : allowed name v) :
    Installing allowed (MachineM.rawSet id (.text name) v : MachineM ε Unit) := fun s =>
  ⟨_, _, runOn_rawSet id _ v s, .entering .refl id may⟩

end Installing

theorem setFunctions_installing (id : TableId) (module : String) {names : List String}
    (may : ∀ name ∈ names, ∀ v, allowed name v) :
    Installing allowed (setFunctions id module names : MachineM ε Unit) := by
  induction names with
  | nil => exact .pure ()
  | cons name rest ih =>
    exact (Installing.newNative _).bind fun f =>
      (Installing.rawSet id (may name List.mem_cons_self f)).bind fun _ =>
        ih fun other among => may other (.tail _ among)

theorem setValues_installing (id : TableId) {pairs : List (String × Value)}
    (may : ∀ pair ∈ pairs, allowed pair.1 pair.2) :
    Installing allowed (setValues id pairs : MachineM ε Unit) := by
  induction pairs with
  | nil => exact .pure ()
  | cons pair rest ih =>
    exact (Installing.rawSet id (may pair List.mem_cons_self)).bind fun _ =>
      ih fun other among => may other (.tail _ among)

/-- A value that alone is allowed under its name is there afterwards. -/
theorem setValues_enters {id : TableId} {name : String} {v : Value} {s : Machine}
    {pairs : List (String × Value)} (may : ∀ pair ∈ pairs, allowed pair.1 pair.2)
    (alone : ∀ w, allowed name w → w = v) (among : (name, v) ∈ pairs)
    (known : id.index < s.tables.size) :
    ∃ t, (setValues id pairs : MachineM ε Unit).runOn s = (.ok (), t) ∧ s.Installs allowed t ∧
      t.held id name = v := by
  induction pairs generalizing s with
  | nil => cases among
  | cons pair rest ih =>
    have first : s.Installs allowed (s.entering id pair.1 pair.2) :=
      .entering .refl id (may pair List.mem_cons_self)
    have others : ∀ other ∈ rest, allowed other.1 other.2 := fun other inside =>
      may other (.tail _ inside)
    have whole (t : Machine) (run : (setValues id rest : MachineM ε Unit).runOn
        (s.entering id pair.1 pair.2) = (.ok (), t)) :
        (setValues id (pair :: rest) : MachineM ε Unit).runOn s = (.ok (), t) := by
      rw [setValues, runOn_bind_ok (runOn_rawSet id _ pair.2 s)]
      exact run
    rcases List.mem_cons.1 among with rfl | among
    · obtain ⟨_, t, run, installs⟩ :=
        setValues_installing (ε := ε) id others (s.entering id name v)
      refine ⟨t, whole t run, first.trans installs, ?_⟩
      rcases installs.held name id with same | may
      · rw [same, Machine.held_entering known, if_pos rfl]
      · exact alone _ may
    · obtain ⟨t, run, installs, there⟩ := ih (s := s.entering id pair.1 pair.2) others among
        (by simpa [Machine.entering] using known)
      exact ⟨t, whole t run, first.trans installs, there⟩

theorem addModule_installing (id : TableId) {module : String} {functions : List String}
    (table : ∀ id, allowed module (.table id))
    (may : ∀ name ∈ functions, ∀ v, allowed name v) :
    Installing allowed (addModule module id functions : MachineM ε Unit) :=
  Installing.get.bind fun s => (setFunctions_installing id module may).bind fun _ =>
    (Installing.rawSet s.loaded (table id)).bind fun _ => .rawSet s.globals (table id)

theorem addModules_installing {modules : List (String × List String)}
    (may : ∀ module ∈ modules, (∀ id, allowed module.1 (.table id)) ∧
      ∀ name ∈ module.2, ∀ v, allowed name v) :
    Installing allowed (addModules modules : MachineM ε Unit) := by
  induction modules with
  | nil => exact .pure ()
  | cons module rest ih =>
    obtain ⟨table, functions⟩ := may module List.mem_cons_self
    have after := fun _ : Unit => ih fun other inside => may other (.tail _ inside)
    unfold addModules
    split
    · exact Installing.get.bind fun s => (Installing.pure s.globals).bind fun id =>
        (addModule_installing id table functions).bind after
    · exact Installing.newTable.bind fun id =>
        (addModule_installing id table functions).bind after

theorem addModules_append (first second : List (String × List String)) :
    (addModules (first ++ second) : MachineM ε Unit) =
      addModules first >>= fun _ => addModules second := by
  induction first with
  | nil => simp [addModules]
  | cons module rest ih =>
    rw [List.cons_append, addModules, addModules]
    split <;> simp [ih]

theorem moduleTable_installing (module : String) :
    Installing allowed (moduleTable module : MachineM ε TableId) :=
  Installing.get.bind fun s => (Installing.rawGet s.loaded module).bind fun v => by
    split
    · exact .pure _
    · exact .pure _

theorem newStreamMeta_installing
    (may : ∀ name ∈ ["close", "flush", "lines", "read", "seek", "setvbuf", "write"] ++
      ["__gc", "__close"] ++ ["__name", "__index"], ∀ v, allowed name v) :
    Installing allowed (newStreamMeta : MachineM ε TableId) := by
  have functions (name : String) := fun among => may name (List.mem_append_left _ among)
  refine Installing.newTable.bind fun methods => (setFunctions_installing methods "file"
    fun name among => functions name (List.mem_append_left _ among)).bind fun _ =>
      Installing.newTable.bind fun streams => (setValues_installing streams ?_).bind fun _ =>
        (setFunctions_installing streams "file" fun name among =>
          functions name (List.mem_append_right _ among)).bind fun _ => .pure streams
  simp [may]

theorem textOperators_installing (id : TableId) (operators : List (String × Standard))
    (may : ∀ operator ∈ operators, ∀ v, allowed operator.1 v) :
    Installing allowed (operators.forM fun (event, f) => do
      rawSet id (.text event) (← newNative (.standard f)) : MachineM ε Unit) := by
  induction operators with
  | nil => exact .pure ()
  | cons operator rest ih =>
    exact ((Installing.newNative _).bind fun f =>
      .rawSet id (may operator List.mem_cons_self f)).bind fun _ =>
        ih fun other among => may other (.tail _ among)

/-- The first steps make the tables of globals and of loaded modules. -/
def started (files : Files) (environment : Variables) (objects : Objects) : Machine where
  tables := #[.empty, .empty]
  globals := ⟨0⟩
  loaded := ⟨1⟩
  files := files
  environment := environment
  objects := objects

theorem started_lacks (files : Files) (environment : Variables) (objects : Objects)
    (name : String) : (started files environment objects).Lacks name := by
  have blank (id : TableId) :
      (started files environment objects).tables[id.index]?.getD default = .empty := by
    rcases id with ⟨_ | _ | _⟩ <;> rfl
  refine ⟨fun id => by rw [blank]; rfl, fun id f => ?_⟩
  rw [Machine.held, blank, Table.get_empty]
  intro same
  cases same

/-- What the standard modules enter: a function has another name than `string`. -/
def Standing (name : String) (v : Value) : Prop := name = "string" → ∀ f, v ≠ .function f

theorem standing_table (name : String) (id : TableId) : Standing name (.table id) := by
  intro _ f same
  cases same

/-- What they enter besides the module `package` itself: only the cache as `loaded`. -/
structure Beside (loaded : TableId) (name : String) (v : Value) : Prop where
  standing : Standing name v
  package : name ≠ "package"
  loaded : name = "loaded" → v = .table loaded

theorem Beside.of_other {loaded : TableId} {name : String}
    (other : name ∉ ["string", "package", "loaded"]) (v : Value) : Beside loaded name v := by
  simp only [List.mem_cons, List.not_mem_nil, or_false, not_or] at other
  exact ⟨fun same => absurd same other.1, other.2.1, fun same => absurd same other.2.2⟩

/-- The globals and the cache of loaded modules have a table under `package`. -/
structure Packaged (s : Machine) (package : TableId) : Prop where
  known : package.index < s.tables.size
  globals : s.held s.globals "package" = .table package
  loaded : s.held s.loaded "package" = .table package

/-- An installation that has entered the module `package` already. -/
structure Underway (s t : Machine) (package : TableId) : Prop where
  installs : s.Installs Standing t
  packaged : Packaged t package

/-- An installation after which the globals lead to the cache of loaded modules. -/
structure Led (s t : Machine) (package : TableId) : Prop extends Underway s t package where
  cached : t.held package "loaded" = .table s.loaded

namespace Underway

variable {s t u : Machine} {package : TableId}

theorem step (underway : Underway s t package) (installs : t.Installs (Beside s.loaded) u) :
    Underway s u package := by
  have standing : t.Installs Standing u := installs.mono fun _ _ beside => beside.standing
  have readied := standing.readies fun v allowed => allowed rfl
  have held (id : TableId) : u.held id "package" = t.held id "package" :=
    (installs.held "package" id).resolve_right fun beside => beside.package rfl
  refine ⟨underway.installs.trans standing, Nat.lt_of_lt_of_le underway.packaged.known
    readied.tables, ?_, ?_⟩
  · rw [readied.globals, held]
    exact underway.packaged.globals
  · rw [standing.loaded, held]
    exact underway.packaged.loaded

/-- One more step before the cache is entered in the module `package`. -/
theorem bind {m : MachineM ε α} {f : α → MachineM ε β} (underway : Underway s t package)
    (first : Installing (Beside s.loaded) m)
    (rest : ∀ a u, Underway s u package → Led s ((f a).runOn u).2 package) :
    Led s ((m >>= f).runOn t).2 package := by
  obtain ⟨a, u, run, installs⟩ := first t
  rw [runOn_bind_ok run]
  exact rest a u (underway.step installs)

/-- Further steps leave the cache where it was entered. -/
theorem led {m : MachineM ε α} (underway : Underway s t package)
    (cached : t.held package "loaded" = .table s.loaded)
    (last : Installing (Beside s.loaded) m) : Led s (m.runOn t).2 package := by
  obtain ⟨a, u, run, installs⟩ := last t
  rw [run]
  refine ⟨underway.step installs, ?_⟩
  rcases installs.held "loaded" package with same | beside
  · exact same.trans cached
  · exact beside.loaded rfl

/-- The step that enters the cache in the module `package`. -/
theorem enters {pairs : List (String × Value)} {f : Unit → MachineM ε α}
    (underway : Underway s t package) (may : ∀ pair ∈ pairs, Beside s.loaded pair.1 pair.2)
    (among : ("loaded", .table s.loaded) ∈ pairs) (last : Installing (Beside s.loaded) (f ())) :
    Led s ((setValues package pairs >>= f).runOn t).2 package := by
  obtain ⟨u, entered, installs, cached⟩ := setValues_enters (ε := ε) may
    (fun w beside => beside.loaded rfl) among underway.packaged.known
  rw [runOn_bind_ok entered]
  exact (underway.step installs).led cached last

end Underway

/-- The module `package` is entered in the cache and as a global. -/
theorem packaged_addModule {s : Machine} (id : TableId) (names : List String)
    (known : id.index < s.tables.size) (globals : s.globals.index < s.tables.size)
    (loaded : s.loaded.index < s.tables.size) (may : ∀ name ∈ names, ∀ v, Standing name v) :
    ∃ t, (addModule "package" id names : MachineM ε Unit).runOn s = (.ok (), t) ∧
      s.Installs Standing t ∧ Packaged t id := by
  obtain ⟨_, t, run, installs⟩ := setFunctions_installing (ε := ε) id "package" may s
  have readied := installs.readies fun v allowed => allowed rfl
  have within {other : TableId} (inside : other.index < s.tables.size) :
      other.index < t.tables.size := Nat.lt_of_lt_of_le inside readied.tables
  let cached := t.entering s.loaded "package" (.table id)
  have size : cached.tables.size = t.tables.size := by simp [cached, Machine.entering]
  have entered : s.Installs Standing cached := installs.entering s.loaded (standing_table _ id)
  refine ⟨cached.entering s.globals "package" (.table id), ?_,
    entered.entering s.globals (standing_table _ id), ?_, ?_, ?_⟩
  · rw [addModule, runOn_bind_ok (runOn_get s), runOn_bind_ok run,
      runOn_bind_ok (runOn_rawSet _ _ _ _)]
    exact runOn_rawSet _ _ _ _
  · simpa [cached, Machine.entering] using within known
  · have same : (cached.entering s.globals "package" (.table id)).globals = s.globals :=
      readied.globals
    rw [same, Machine.held_entering (size ▸ within globals), if_pos rfl]
  · have same : (cached.entering s.globals "package" (.table id)).loaded = s.loaded :=
      installs.loaded
    rw [same]
    rcases Machine.held_entering_or cached s.globals s.loaded "package" "package" (.table id) with
      earlier | ⟨-, there⟩
    · rw [earlier, Machine.held_entering (within loaded), if_pos rfl]
    · exact there

/-- The standard modules, `package` among them. -/
theorem underway_addModules {s : Machine} (globals : s.globals.index < s.tables.size)
    (loaded : s.loaded.index < s.tables.size) :
    ∃ t package, (addModules modules : MachineM ε Unit).runOn s = (.ok (), t) ∧
      Underway s t package := by
  have others (modules : List (String × List String))
      (plain : ∀ module ∈ modules, module.1 ∉ ["package", "loaded"] ∧
        ∀ name ∈ module.2, name ∉ ["string", "package", "loaded"]) :
      Installing (Beside s.loaded) (addModules modules : MachineM ε Unit) := by
    refine addModules_installing fun module among => ⟨fun id => ?_, fun name inside =>
      .of_other ((plain module among).2 name inside)⟩
    have other := (plain module among).1
    simp only [List.mem_cons, List.not_mem_nil, or_false, not_or] at other
    exact ⟨standing_table _ id, other.1, fun same => absurd same other.2⟩
  -- the module `package` stands between others that do not touch its names
  obtain ⟨_, t, first, before⟩ := others (modules.take 5) (by decide) s
  have standing : s.Installs Standing t := before.mono fun _ _ beside => beside.standing
  have readied := standing.readies fun v allowed => allowed rfl
  let made : Machine := { t with tables := t.tables.push .empty }
  have within {id other : TableId} (inside : id.index < s.tables.size) (same : other = id) :
      other.index < made.tables.size := by
    have below := Nat.lt_of_lt_of_le inside readied.tables
    simpa [made, same] using Nat.lt_succ_of_lt below
  obtain ⟨u, added, installs, packaged⟩ := packaged_addModule (ε := ε) (s := made)
    ⟨t.tables.size⟩ ["loadlib", "searchpath"] (by simp [made])
    (within globals readied.globals) (within loaded before.loaded)
    fun name among v same => by subst same; simp at among
  have underway : Underway s u ⟨t.tables.size⟩ :=
    ⟨(standing.trans (.newTable .refl)).trans installs, packaged⟩
  obtain ⟨_, w, last, after⟩ := others (modules.drop 6) (by decide) u
  refine ⟨w, ⟨t.tables.size⟩, ?_, underway.step after⟩
  have parts : modules = modules.take 5 ++ (("package", ["loadlib", "searchpath"]) ::
      modules.drop 6) := rfl
  rw [parts, addModules_append, runOn_bind_ok first, addModules, if_neg (by decide),
    runOn_bind_ok (runOn_newTable _ t), runOn_bind_ok added]
  exact last

/-- A module that is in the cache is found there. -/
theorem runOn_moduleTable {s : Machine} {module : String} {id : TableId}
    (cached : s.held s.loaded module = .table id) :
    (moduleTable module : MachineM ε TableId).runOn s = (.ok id, s.searched s.loaded module) := by
  rw [moduleTable, runOn_bind_ok (runOn_get s), runOn_bind_ok (runOn_lookup _ _ s), cached]
  rfl

/-- What a new interpreter starts with, and how its globals lead to the cache of loaded modules. -/
theorem led_new (files : Files) (environment : Variables) (objects : Objects) :
    ∃ package, Led (started files environment objects) (.new files environment objects)
      package := by
  have values (id : TableId) {pairs : List (String × Value)}
      (other : ∀ name ∈ pairs.map (·.1), name ∉ ["string", "package", "loaded"]) :
      Installing (Beside ⟨1⟩) (setValues id pairs : MachineM Unit Unit) :=
    setValues_installing id fun pair among =>
      .of_other (other pair.1 (List.mem_map_of_mem among)) pair.2
  have table (module : String) :
      Installing (Beside ⟨1⟩) (moduleTable module : MachineM Unit TableId) :=
    moduleTable_installing module
  obtain ⟨t, package, added, underway⟩ := underway_addModules (ε := Unit)
    (s := started files environment objects) Nat.zero_lt_two Nat.one_lt_two
  refine ⟨package, ?_⟩
  change Led _ ((install : MachineM Unit Unit).runOn { files, environment, objects }).2 _
  rw [install, runOn_bind_ok (runOn_newTable _ _), runOn_bind_ok (runOn_newTable _ _),
    runOn_bind_ok (runOn_modify _ _)]
  change Led _ (runOn _ (started files environment objects)).2 _
  rw [runOn_bind_ok added]
  refine underway.bind (values _ (by simp)) fun _ _ underway => ?_
  refine underway.bind (table _) fun _ _ underway => ?_
  refine underway.bind (values _ (by simp)) fun _ _ underway => ?_
  refine underway.bind (table _) fun _ _ underway => ?_
  refine underway.bind .newUserdata fun _ _ underway => ?_
  refine underway.bind .newUserdata fun _ _ underway => ?_
  refine underway.bind .newUserdata fun _ _ underway => ?_
  refine underway.bind (values _ (by simp)) fun _ t underway => ?_
  rw [runOn_bind_ok (runOn_moduleTable underway.packaged.loaded)]
  have found := underway.step (.searched .refl t.loaded "package")
  refine found.bind .get fun _ _ underway => ?_
  refine underway.bind .newTable fun _ t underway => ?_
  refine underway.enters ?_ (by simp [started]) ?_
  · simp only [List.forall_mem_cons, List.not_mem_nil, false_implies, implies_true, and_true]
    exact ⟨.of_other (by decide) _, ⟨fun same => absurd same (by decide), by decide, fun _ => rfl⟩,
      .of_other (by decide) _, .of_other (by decide) _, .of_other (by decide) _⟩
  -- the steps after it, which the cache outlasts
  refine .bind (table _) fun _ => .bind (values _ (by simp)) fun _ => ?_
  refine .bind .newTable fun strings => .bind (table _) fun _ => ?_
  refine .bind (values _ (by simp)) fun _ => ?_
  refine .bind (textOperators_installing strings textOperators fun operator among =>
    Beside.of_other (by revert operator; decide)) fun _ => ?_
  refine .bind (.map _ (newStreamMeta_installing fun name among =>
    Beside.of_other (by revert name; decide))) fun _ => ?_
  refine .bind (.rawGet _ _) fun _ => .bind (.newNative _) fun _ => ?_
  exact fun s => ⟨_, _, rfl, .equipped .refl _ _ _ _ _⟩

/-- All that a new interpreter starts with is entered in such steps. -/
theorem readies_new (files : Files) (environment : Variables) (objects : Objects) :
    (started files environment objects).Readies (.new files environment objects) := by
  obtain ⟨package, led⟩ := led_new files environment objects
  exact led.installs.readies fun v allowed => allowed rfl

end Interpreter

/-! ## A resolver on a machine that no script has run on -/

section

variable {call : Caller} {s t : Machine} {r : Nat} {index : ModuleIndex}

/-- The host looks something up that needs no metatable. -/
theorem ScriptM.indexFor_readies (call : Caller) (lacks : s.Lacks "string") (id : TableId)
    (name : String) : s.Readies ((indexFor call (.table id) (.text name)).runOn s).2 := by
  rw [runOn_indexFor_unaided call (lacks.unaided id name)]
  obtain ⟨faults, same⟩ := receive_faults (ε := ScriptError) (s.held id name) (s.searched id name)
  rw [same]
  exact (Machine.Readies.searched s id name).trans
    ⟨rfl, rfl, rfl, rfl, rfl, Nat.le_refl _, fun lacks => lacks.of_tables rfl⟩

theorem Published.expectTable_readies (v : Value) (s : Machine) :
    s.Readies ((Published.expectTable v).runOn s).2 := by
  cases v <;> exact .refl s

theorem Resolver.currentCache_readies (call : Caller) (lacks : s.Lacks "string") :
    s.Readies ((currentCache call).runOn s).2 := by
  have looked : s.Readies ((ScriptM.globalFor call "package").runOn s).2 := by
    rw [ScriptM.runOn_globalFor]
    exact ScriptM.indexFor_readies call lacks s.globals "package"
  rw [currentCache, runOn_mapError]
  refine .bind looked fun package t readied => ?_
  split
  · exact .newTable t
  · refine .bind (Published.expectTable_readies package t) fun id u again => ?_
    have lacks := again.lacks (readied.lacks lacks)
    exact .bind (ScriptM.indexFor_readies call lacks id "loaded") fun v w _ =>
      Published.expectTable_readies v w

/--
A machine on which `require` is a resolver over an index.  The resolver loads nothing yet and has no
other loaders.
-/
structure Machine.Equipped (s : Machine) (index : ModuleIndex) (r : Nat) : Prop where
  lacks : s.Lacks "string"
  require : ∃ id, s.held s.globals "require" = .function id ∧
    s.functions[id.index]? = some (.native (.resolve r))
  resolver : ∃ loaded, s.resolvers[r]? = some { index, loaded := some loaded }

namespace Machine.Equipped

theorem searched (equipped : s.Equipped index r) (id : TableId) (name : String) :
    (s.searched id name).Equipped index r where
  lacks := equipped.lacks.searched id name
  require := by simpa using equipped.require
  resolver := by simpa using equipped.resolver

theorem entering (equipped : s.Equipped index r) (id : TableId) {name : String} {v : Value}
    (other : name ≠ "require") (noFunction : ∀ f, v ≠ .function f) :
    (s.entering id name v).Equipped index r where
  lacks := equipped.lacks.entering id fun _ => noFunction
  require := by
    obtain ⟨f, held, found⟩ := equipped.require
    refine ⟨f, ?_, found⟩
    rcases held_entering_or s id s.globals name "require" v with same | ⟨here, -⟩
    · exact same.trans held
    · exact absurd here.symm other
  resolver := equipped.resolver

end Machine.Equipped

namespace Resolver

/-- A resolver that is installed on a machine that no script has run on. -/
theorem equipped_install (lacks : s.Lacks "string") (known : s.globals.index < s.tables.size)
    (new : s.resolvers[r]? = some { index }) (installs : (install call r).runOn s = (.ok (), t)) :
    t.Equipped index r ∧ t.files = s.files := by
  obtain ⟨loaded, u, found, -⟩ := runOn_bind_eq_ok.1 installs
  have readied : s.Readies u := by
    have looked := currentCache_readies call lacks
    rwa [found] at looked
  have still := readied.lacks lacks
  rw [runOn_install found fun _ => still.metatables _] at installs
  obtain rfl : installed u r loaded = t := congrArg Prod.snd installs
  have prepares : (prepared u r loaded).Lacks "string" := still.of_tables rfl
  have lt : u.globals.index <
      ((prepared u r loaded).searched u.globals "require").tables.size := by
    rw [Machine.size_tables_searched, readied.globals]
    exact Nat.lt_of_lt_of_le known readied.tables
  have entered := Machine.held_entering lt "require" "require" (.function ⟨u.functions.size⟩)
  rw [if_pos rfl] at entered
  refine ⟨⟨?_, ⟨⟨u.functions.size⟩, ?_, ?_⟩, ⟨loaded, ?_⟩⟩, ?_⟩
  · have lacks := (prepares.searched u.globals "require").entering u.globals
      (x := "require") (v := .function ⟨u.functions.size⟩) fun same => absurd same (by decide)
    exact lacks.of_tables rfl
  · rw [show (installed u r loaded).globals = u.globals by
      simp [installed, prepared, Machine.entering]]
    exact entered
  · simp [installed, prepared, Machine.entering]
  · simp [installed, prepared, Machine.entering, Array.getElem?_modify, readied.resolvers, new]
  · simpa [installed, prepared, Machine.entering] using readied.files

end Resolver

/-- A resolver finds the cache of loaded modules where the globals lead to it. -/
theorem Dialect.runOn_resolverFor {package loaded : TableId} (modules : ModuleSettings)
    (lacks : s.Lacks "string") (packaged : s.held s.globals "package" = .table package)
    (cached : s.held package "loaded" = .table loaded) :
    ∃ t, (resolverFor modules).runOn s = (.ok s.resolvers.size, t) ∧ t.globals = s.globals ∧
      t.tables.size = s.tables.size ∧ t.objects = s.objects := by
  let index : ModuleIndex := .ofSettings modules s.files s.environment
  let made : Machine := { s with resolvers := s.resolvers.push { index } }
  have created : (Resolver.new index : MachineM ScriptError Nat).runOn s =
      (.ok s.resolvers.size, made) := rfl
  have found : (Resolver.currentCache ScriptHost.call).runOn made = _ :=
    Resolver.runOn_currentCache_of_held packaged cached
  have looked : made.Lacks "string" := lacks.of_tables rfl
  have installs := Resolver.runOn_install (r := s.resolvers.size) found fun _ =>
    ((looked.searched made.globals "package").searched package "loaded").metatables _
  refine ⟨Resolver.installed ((made.searched made.globals "package").searched package "loaded")
    s.resolvers.size loaded, ?_, ?_⟩
  · rw [resolverFor, runOn_bind_ok (runOn_get s), runOn_bind_ok created]
    exact runOn_bind_ok (runOn_mapError_ok installs) _
  · simp [Resolver.installed, Resolver.prepared, Machine.entering, made]

theorem Dialect.equipped_resolverFor {modules : ModuleSettings} (lacks : s.Lacks "string")
    (known : s.globals.index < s.tables.size)
    (run : (resolverFor modules).runOn s = (.ok r, t)) :
    t.Equipped (.ofSettings modules s.files s.environment) r ∧ t.files = s.files := by
  have made (index : ModuleIndex) : (Resolver.new index : MachineM ScriptError Nat).runOn s =
      (.ok s.resolvers.size, { s with resolvers := s.resolvers.push { index } }) := rfl
  rw [resolverFor, runOn_bind_ok (runOn_get s), runOn_bind_ok (made _)] at run
  obtain ⟨_, u, installs, done⟩ := runOn_bind_eq_ok.1 run
  cases done
  generalize ModuleIndex.ofSettings modules s.files s.environment = index at *
  have new : (s.resolvers.push { index })[s.resolvers.size]? = some { index } := by simp
  exact Resolver.equipped_install (s := { s with resolvers := s.resolvers.push { index } })
    (lacks.of_tables rfl) known new (mapError_eq_ok installs)

/-- The interpreter that a dialect is compiled on, once it has its resolver. -/
theorem Dialect.equipped_new {modules : ModuleSettings} {files : Files} {environment : Variables}
    (run : (resolverFor modules).runOn (.new files environment) = (.ok r, t)) :
    t.Equipped (.ofSettings modules files environment) r ∧ t.files = files := by
  have readied := Interpreter.readies_new files environment {}
  have known : (Machine.new files environment).globals.index <
      (Machine.new files environment).tables.size := by
    rw [readied.globals]
    exact Nat.lt_of_lt_of_le Nat.two_pos readied.tables
  have equipped := equipped_resolverFor
    (readied.lacks (Interpreter.started_lacks files environment {} "string")) known run
  rwa [readied.files, readied.environment] at equipped

end

end ScriptHost
