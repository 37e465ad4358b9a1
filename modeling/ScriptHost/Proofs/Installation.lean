import ScriptHost.Proofs.ModulePrograms
import ScriptHost.Proofs.ModuleRuns

/-!
# Installed resolvers

A resolver that is installed takes the place of the function `require` and keeps the cache of
modules that the globals lead to at that time.
-/

namespace ScriptHost

open MachineM ScriptM

/-- A machine that runs no script, with a resolver over a set of modules that has loaded none. -/
structure Fresh {q : Requirer} {limit : Nat} (modules : ModuleSet q limit) (s : Machine) :
    Prop where
  ready : Ready q s
  files : s.files = modules.files
  resolver : s.resolvers[q.resolver]? = some (modules.resolver [])
  nesting : s.nesting = 0
  frames : s.frames = []

/-- A machine whose globals lead to a cache of modules and have some `require` already. -/
structure Furnished (s : Machine) (package cache : TableId) : Prop where
  globals_lt : s.globals.index < s.tables.size
  cache_lt : cache.index < s.tables.size
  apart : s.globals.index ≠ cache.index
  packaged : s.held s.globals "package" = .table package
  loaded : s.held package "loaded" = .table cache
  require : s.held s.globals "require" ≠ .nil

theorem Furnished.searched {s : Machine} {package cache : TableId}
    (furnished : Furnished s package cache) (id : TableId) (name : String) :
    Furnished (s.searched id name) package cache := by
  refine ⟨?_, ?_, ?_, ?_, ?_, ?_⟩
  · simpa using furnished.globals_lt
  · simpa using furnished.cache_lt
  · simpa using furnished.apart
  · simpa using furnished.packaged
  · simpa using furnished.loaded
  · simpa using furnished.require

namespace ScriptM

variable {call : Caller} {s : Machine}

/-- The host receives what scripts find. -/
theorem runOn_indexFor_of_index {id : TableId} {name : String} {v : Value} {t : Machine}
    (found : (index call {} (.table id) (.text name)).runOn s = (.ok v, t)) :
    (indexFor call (.table id) (.text name)).runOn s = (receive v).runOn t := by
  rw [indexFor, send_text, pure_bind, runOn_bind_ok (runOn_protect found)]

theorem runOn_indexFor {id : TableId} {name : String} {v : Value} (held : s.held id name = v)
    (present : v ≠ .nil) (crosses : v.Crosses) :
    (indexFor call (.table id) (.text name)).runOn s = (.ok v, s.searched id name) := by
  subst held
  rw [runOn_indexFor_of_index (runOn_index present), receive_of_crosses crosses]
  rfl

/-- A value goes into the table itself where the name is set already or no metatable is asked. -/
theorem runOn_store {origin : Origin} {id : TableId} {name : String} {v : Value}
    (unaided : s.held id name = .nil → (s.tables[id.index]?.getD default).metatable = none) :
    (store call origin (.table id) (.text name) v).runOn s =
      (.ok (), (s.searched id name).entering id name v) := by
  obtain ⟨fuel, limit⟩ := chainLimit_pos
  rw [store, limit, storeFrom]
  dsimp only
  rw [runOn_bind_ok (runOn_lookup _ _ _)]
  by_cases absent : s.held id name = .nil
  · have nothing := runOn_metamethod_of_none "newindex"
      ((s.metatable_searched id name id).trans (unaided absent))
    rw [absent, if_neg (by decide), runOn_bind_ok nothing]
    rfl
  · rw [Value.isNil_eq_false absent]
    rfl

/-- What the host sets goes there as well. -/
theorem runOn_storeFor {id : TableId} {name : String} {v : Value}
    (unaided : s.held id name = .nil → (s.tables[id.index]?.getD default).metatable = none)
    (crosses : v.Crosses) :
    (storeFor call (.table id) (.text name) v).runOn s =
      (.ok (), (s.searched id name).entering id name v) := by
  rw [storeFor, send_text, pure_bind, send_of_crosses crosses, pure_bind,
    runOn_protect (runOn_store unaided)]

/-- A global variable goes into the table of globals under the same condition. -/
theorem runOn_setGlobalFor {name : String} {v : Value}
    (unaided : s.held s.globals name = .nil →
      (s.tables[s.globals.index]?.getD default).metatable = none)
    (crosses : v.Crosses) :
    (setGlobalFor call name v).runOn s =
      (.ok (), (s.searched s.globals name).entering s.globals name v) := by
  rw [setGlobalFor, runOn_bind_ok (runOn_get s)]
  exact runOn_storeFor unaided crosses

end ScriptM

namespace Resolver

variable {call : Caller} {s : Machine} {package loaded : TableId} {r limit : Nat}

/-- The cache that the globals lead to is found in two lookups. -/
theorem runOn_currentCache_of_held (packaged : s.held s.globals "package" = .table package)
    (cached : s.held package "loaded" = .table loaded) :
    (currentCache call).runOn s =
      (.ok loaded, (s.searched s.globals "package").searched package "loaded") := by
  have first : (globalFor call "package").runOn s =
      (.ok (.table package), s.searched s.globals "package") := by
    rw [globalFor, runOn_bind_ok (MachineM.runOn_get s)]
    exact runOn_indexFor packaged nofun nofun
  have held : (s.searched s.globals "package").held package "loaded" = .table loaded := by
    rw [Machine.held_searched, cached]
  have second : (indexFor call (.table package) (.text "loaded")).runOn _ = _ :=
    runOn_indexFor held nofun nofun
  have expected (id : TableId) (t : Machine) :
      (Published.expectTable (.table id)).runOn t = (.ok id, t) := rfl
  rw [currentCache, runOn_mapError, runOn_bind_ok first]
  dsimp only
  rw [runOn_bind_ok (expected package _), runOn_bind_ok second, expected]
  rfl

theorem runOn_currentCache (furnished : Furnished s package loaded) :
    (currentCache call).runOn s =
      (.ok loaded, (s.searched s.globals "package").searched package "loaded") :=
  runOn_currentCache_of_held furnished.packaged furnished.loaded

/-- The machine with a resolver that keeps a cache, and with a function that calls it. -/
def prepared (s : Machine) (r : Nat) (loaded : TableId) : Machine :=
  { s with
    resolvers := s.resolvers.modify r fun resolver => { resolver with loaded := some loaded }
    functions := s.functions.push (.native (.resolve r)) }

/-- The machine on which that function is the global `require`. -/
def installed (s : Machine) (r : Nat) (loaded : TableId) : Machine :=
  { ((prepared s r loaded).searched s.globals "require").entering s.globals "require"
      (.function ⟨s.functions.size⟩) with installed := some r }

theorem runOn_install {t : Machine} (found : (currentCache call).runOn s = (.ok loaded, t))
    (unaided : t.held t.globals "require" = .nil →
      (t.tables[t.globals.index]?.getD default).metatable = none) :
    (install call r).runOn s = (.ok (), installed t r loaded) := by
  have entered : (mapError (.load "require") (setGlobalFor call "require"
      (.function ⟨t.functions.size⟩)) : ModuleM Unit).runOn (prepared t r loaded) =
        (.ok (), ((prepared t r loaded).searched t.globals "require").entering t.globals "require"
          (.function ⟨t.functions.size⟩)) := by
    have set_ : (setGlobalFor call "require" (.function ⟨t.functions.size⟩)).runOn
        (prepared t r loaded) = _ := runOn_setGlobalFor unaided nofun
    rw [runOn_mapError, set_]
    rfl
  rw [install, runOn_bind_ok found]
  exact runOn_bind_ok entered _

/-- The other functions of the language keep their global names. -/
theorem hasStandard_installed {name : String} {f : Standard} (has : s.HasStandard name f)
    (other : name ≠ "require") (known : s.globals.index < s.tables.size) :
    (installed s r loaded).HasStandard name f := by
  have entered := Machine.held_entering (s := (prepared s r loaded).searched s.globals "require")
    (by rwa [Machine.size_tables_searched]) "require" name (.function ⟨s.functions.size⟩)
  rw [if_neg other, Machine.held_searched] at entered
  refine has.onward ?_ entered fun i g found => ?_
  · simp [installed, prepared, Machine.entering]
  · have kept := getElem?_push_of_some found (.native (.resolve r))
    simpa [installed, prepared, Machine.entering] using kept

section

variable {q : Requirer} {modules : ModuleSet q limit} (furnished : Furnished s package q.cache)
  (own : q.function = ⟨s.functions.size⟩)
  (new : s.resolvers[q.resolver]? = some { index := modules.index })
  (files : s.files = modules.files) (nesting : s.nesting = 0) (frames : s.frames = [])

include furnished

theorem held_installed (x : String) :
    (installed s q.resolver q.cache).held q.cache x = s.held q.cache x := by
  have apart := Machine.held_entering_other furnished.apart
    ((prepared s q.resolver q.cache).searched s.globals "require") "require" x
    (.function ⟨s.functions.size⟩)
  rw [Machine.held_searched] at apart
  exact apart

include own new files nesting frames

theorem fresh_installed (relied : q.relies (installed s q.resolver q.cache)) :
    Fresh modules (installed s q.resolver q.cache) := by
  have globals_lt : s.globals.index <
      ((prepared s q.resolver q.cache).searched s.globals "require").tables.size := by
    rw [Machine.size_tables_searched]
    exact furnished.globals_lt
  have entered := Machine.held_entering globals_lt "require" "require" (.function ⟨s.functions.size⟩)
  rw [if_pos rfl] at entered
  have globals : (installed s q.resolver q.cache).globals = s.globals := by
    simp [installed, prepared, Machine.entering]
  refine ⟨⟨?_, ?_, ?_, ?_, relied⟩, ?_, ?_, ?_, ?_⟩
  · simpa [installed, prepared, Machine.entering] using furnished.cache_lt
  · simpa [installed, prepared, Machine.entering] using furnished.apart
  · rw [globals, own]
    exact entered
  · simp [installed, prepared, Machine.entering, own]
  · simpa [installed, prepared, Machine.entering] using files
  · simp [installed, prepared, Machine.entering, Array.getElem?_modify, new, ModuleSet.resolver]
  · simpa [installed, prepared, Machine.entering] using nesting
  · simpa [installed, prepared, Machine.entering] using frames

variable (modules) in
/-- A resolver that is installed is fresh, and its cache has what it had before. -/
theorem fresh_install (relied : ∀ t, s.Undisturbed t → q.relies (installed t q.resolver q.cache))
    (call : Caller) :
    ∃ t, (install call q.resolver).runOn s = (.ok (), t) ∧ Fresh modules t ∧
      ∀ x, t.held q.cache x = s.held q.cache x := by
  have later := (furnished.searched s.globals "package").searched package "loaded"
  have looked := (s.undisturbed_searched s.globals "package").trans
    (Machine.undisturbed_searched _ package "loaded")
  refine ⟨_, runOn_install (runOn_currentCache furnished) fun absent =>
    absurd absent later.require, ?_, fun x => ?_⟩
  · exact fresh_installed later (by simpa using own) (by simpa using new) (by simpa using files)
      (by simpa using nesting) (by simpa using frames) (relied _ looked)
  · rw [held_installed later, Machine.held_searched, Machine.held_searched]

end

/-- A machine with three empty tables, the first of which has the globals, and a new resolver. -/
def blank (index : ModuleIndex) (files : Files) : Machine where
  tables := #[.empty, .empty, .empty]
  functions := #[.native (.standard .setMetatable)]
  globals := ⟨0⟩
  files
  resolvers := #[{ index }]

/-- The machine with a way from the globals to a cache, and with a function of the language. -/
def bare (index : ModuleIndex) (files : Files) : Machine :=
  ((((blank index files).entering ⟨0⟩ "package" (.table ⟨1⟩)).entering ⟨0⟩ "require"
    (.bool true)).entering ⟨0⟩ "setmetatable" (.function ⟨0⟩)).entering ⟨1⟩ "loaded" (.table ⟨2⟩)

section

variable (index : ModuleIndex) (files : Files)

theorem size_bare : (bare index files).tables.size = 3 := by
  simp [bare, blank, Machine.entering]

theorem held_bare (x : String) : (bare index files).held ⟨2⟩ x = .nil := by
  rw [bare, Machine.held_entering_other (by decide), Machine.held_entering_other (by decide),
    Machine.held_entering_other (by decide), Machine.held_entering_other (by decide)]
  exact Table.get_empty _

/-- The global variables of the machine. -/
theorem held_globals_bare (x : String) : (bare index files).held ⟨0⟩ x =
    if x = "setmetatable" then .function ⟨0⟩
    else if x = "require" then .bool true
    else if x = "package" then .table ⟨1⟩ else .nil := by
  have empty : (blank index files).held ⟨0⟩ x = .nil := Table.get_empty _
  rw [bare, Machine.held_entering_other (by decide), Machine.held_entering, Machine.held_entering,
    Machine.held_entering, empty]
  all_goals simp [blank, Machine.entering]

theorem furnished_bare : Furnished (bare index files) ⟨1⟩ ⟨2⟩ := by
  refine ⟨?_, ?_, Nat.zero_ne_add_one 1, held_globals_bare index files "package", ?_, ?_⟩
  · rw [size_bare]
    exact Nat.zero_lt_succ _
  · rw [size_bare]
    exact Nat.lt_succ_self _
  · rw [bare, Machine.held_entering, if_pos rfl]
    simp [blank, Machine.entering]
  · change (bare index files).held ⟨0⟩ "require" ≠ _
    rw [held_globals_bare]
    intro same
    cases same

theorem hasStandard_bare : (bare index files).HasStandard "setmetatable" .setMetatable :=
  ⟨⟨0⟩, held_globals_bare index files "setmetatable", rfl⟩

end

/-- A resolver over any set of modules can be installed. -/
theorem exists_fresh (call : Caller) {limit : Nat} (modules : ModuleSet (.plain 0 ⟨2⟩ ⟨1⟩) limit) :
    ∃ s, (install call 0).runOn (bare modules.index modules.files) = (.ok (), s) ∧
      Fresh modules s ∧ ∀ x, s.held ⟨2⟩ x = .nil := by
  have furnished := furnished_bare modules.index modules.files
  have has := hasStandard_bare modules.index modules.files
  have relied (t : Machine) (same : (bare modules.index modules.files).Undisturbed t) :
      (installed t 0 ⟨2⟩).HasStandard "setmetatable" .setMetatable := by
    refine hasStandard_installed (has.onward same.globals (same.entries _ _) same.functions)
      (by decide) ?_
    rw [same.globals, same.tables]
    exact furnished.globals_lt
  obtain ⟨s, run, fresh, held⟩ :=
    fresh_install modules furnished rfl rfl rfl rfl rfl relied call
  exact ⟨s, run, fresh, fun x => (held x).trans (held_bare _ _ x)⟩

end Resolver

end ScriptHost
