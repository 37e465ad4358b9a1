import ScriptHost.Proofs.ScriptedLookups

/-!
# What a compilation leaves behind

A compilation by a dialect runs scripts, which may do anything that scripts can do.  They cannot
choose another table of globals, and neither another resolver nor another cache for it.  So what is
cleared up after the compilation is what was there before, however the compilation ended.  The
collection in the end takes entries out of weak tables only.

Without a resolver, the way to the cache goes through tables that scripts can change.  It is safe
as long as no metatable is asked: a function in one may undo what was cleared up.
-/

namespace ScriptHost

open MachineM

/-! ## The modules of a dialect -/

namespace Dialect

/-- A module of a dialect, or the package before the first dot of its name. -/
inductive Uses (d : DialectSettings) : String → Prop where
  | parse : Uses d d.parseModule
  | compile : Uses d d.compileModule
  | parsePackage {name rest : String} (named : d.parseModule = name ++ "." ++ rest)
      (plain : '.' ∉ name.toList) : Uses d name
  | compilePackage {name rest : String} (named : d.compileModule = name ++ "." ++ rest)
      (plain : '.' ∉ name.toList) : Uses d name

theorem rootPackage?_append {name : String} (rest : String) (plain : '.' ∉ name.toList) :
    rootPackage? (name ++ "." ++ rest) = some name := by
  have parts : splitText '.' (name ++ "." ++ rest) = name :: splitText '.' rest := by
    have cut := splitText_append '.' name rest
    rwa [splitText_of_not_mem plain, List.singleton_append] at cut
  rw [rootPackage?, parts]
  cases more : splitText '.' rest with
  | nil => exact absurd (List.map_eq_nil_iff.1 more) (splitList_ne_nil _ _)
  | cons part parts => rfl

theorem mem_addDistinct {names : List String} {name other : String} :
    other ∈ addDistinct names name ↔ other ∈ names ∨ other = name := by
  rw [addDistinct]
  split
  · next there =>
    have inside : name ∈ names := by simpa using there
    exact ⟨.inl, fun either => either.elim id fun same => same ▸ inside⟩
  · rw [List.mem_append, List.mem_singleton]

theorem mem_foldl_addDistinct {more names : List String} {name : String} :
    name ∈ more.foldl addDistinct names ↔ name ∈ names ∨ name ∈ more := by
  induction more generalizing names with
  | nil => simp
  | cons first rest ih => rw [List.foldl_cons, ih, mem_addDistinct, List.mem_cons, or_assoc]

/-- All names that a dialect uses are to be forgotten. -/
theorem Uses.mem_modulesToForget {d : DialectSettings} {name : String} (uses : Uses d name) :
    name ∈ modulesToForget d := by
  rw [modulesToForget, mem_foldl_addDistinct, List.mem_filterMap]
  cases uses with
  | parse => simp
  | compile => simp
  | @parsePackage name rest named plain =>
    exact .inr ⟨d.parseModule, by simp, named ▸ rootPackage?_append rest plain⟩
  | @compilePackage name rest named plain =>
    exact .inr ⟨d.compileModule, by simp, named ▸ rootPackage?_append rest plain⟩

theorem modulesToForget_eq_cons (d : DialectSettings) :
    ∃ name rest, modulesToForget d = name :: rest :=
  List.exists_cons_of_ne_nil (List.ne_nil_of_mem Uses.parse.mem_modulesToForget)

/-! ## Compilations -/

theorem moduleFunction_interpreted (module field : String) :
    Interpreted call (moduleFunction module field) := by
  refine (ScriptM.globalFor_interpreted _).bind fun _ =>
    (Published.expectFunction_interpreted _).bind fun _ =>
      (ScriptM.firstFor_interpreted _ _).bind fun _ =>
        (Published.expectTable_interpreted _).bind fun _ =>
          (ScriptM.indexFor_interpreted _ _).bind fun v => ?_
  split
  · exact .fail _
  · exact Published.expectFunction_interpreted _

theorem compileSource_interpreted (d : DialectSettings) (source : String) :
    Interpreted call (compileSource d source) := by
  refine ((ScriptM.setGlobalFor_interpreted _ _).mapError _).bind fun _ =>
    ((moduleFunction_interpreted _ _).mapError _).bind fun _ =>
      ((moduleFunction_interpreted _ _).mapError _).bind fun _ =>
        ((ScriptM.globalFor_interpreted _).mapError _).bind fun _ =>
          ((ScriptM.callFor_interpreted _ _).mapError _).bind fun _ =>
            .guarded (.fail _) <| ((ScriptM.callFor_interpreted _ _).mapError _).bind fun _ => ?_
  split
  · exact .ite (.fail _) (.pure _)
  · exact .fail _

/-! ## Clearing up -/

open Machine

section

variable {s t : Machine} {loaded : TableId} {text : String}

/-- The source is on no way to the cache. -/
theorem Direct.sameBut (same : s.SameBut sourceVariable t) (direct : Direct s) : Direct t :=
  direct.congr same.toKeeps (same.held _ _ (.inr (by decide)))
    (fun _ _ => same.held _ _ (.inr (by decide))) same.metatables

theorem InUse.sameBut (same : s.SameBut sourceVariable t) (inUse : InUse s loaded) :
    InUse t loaded :=
  inUse.congr same.toKeeps (same.held _ _ (.inr (by decide)))
    fun _ _ => same.held _ _ (.inr (by decide))

theorem Alarm.sameBut (same : s.SameBut sourceVariable t)
    (raises : ∀ v text, s.Raises v text → t.Raises v text) (alarm : Alarm s text) : Alarm t text :=
  alarm.congr same.toKeeps (same.held _ _ (.inr (by decide)))
    (fun _ _ => same.held _ _ (.inr (by decide))) raises

theorem inUse_entering_source :
    InUse (s.entering s.globals sourceVariable .nil) loaded ↔ InUse s loaded := by
  have same := SameBut.entering sourceVariable s .nil
  exact ⟨.sameBut same.symm, .sameBut same⟩

theorem alarm_entering_source :
    Alarm (s.entering s.globals sourceVariable .nil) text ↔ Alarm s text := by
  have same := SameBut.entering sourceVariable s .nil
  exact ⟨.sameBut same.symm fun _ _ raises => raises, .sameBut same fun _ _ raises => raises⟩

/-- A machine after a compilation was cleared up. -/
structure Cleared (d : DialectSettings) (s t : Machine) : Prop extends s.Keeps t where
  source : t.held s.globals sourceVariable = .nil
  /-- No other cache comes into use, though the entries that lead to one may be collected. -/
  within : ∀ loaded, InUse t loaded → InUse s loaded
  forgotten : ∀ loaded, InUse s loaded → ∀ name, Uses d name → t.held loaded name = .nil
  others : ∀ id x, t.held id x = s.held id x ∨ id = s.globals ∧ x = sourceVariable ∨
    InUse s id ∧ x ∈ modulesToForget d ∨ s.IsWeak id ∧ t.held id x = .nil

/-- The modules are evicted after the source was cleared, and then a collection may follow. -/
theorem clearUp_swept (d : DialectSettings) (spared : List Value) (s : Machine) :
    let evicted := ((modulesToForget d).forM evict).runOn (s.entering s.globals sourceVariable .nil)
    ((clearUp d spared).runOn s).1 = evicted.1 ∧
      evicted.2.Swept ((clearUp d spared).runOn s).2 := by
  intro evicted
  have entered : (clearUp d spared).runOn s = ((modulesToForget d).forM evict >>= fun _ =>
      modify (·.collect spared)).runOn (s.entering s.globals sourceVariable .nil) :=
    runOn_bind_ok (runOn_modify _ s) _
  rw [entered]
  rcases run : evicted with ⟨stop | done, t⟩
  · rw [runOn_bind_stop run]
    exact ⟨rfl, .refl t⟩
  · rw [runOn_bind_ok run]
    exact ⟨rfl, swept_collect t spared⟩

theorem cleared_clearUp (d : DialectSettings) (spared : List Value) (direct : Direct s) :
    Cleared d s ((clearUp d spared).runOn s).2 ∧
      ((∀ text, ¬ Alarm s text) → ((clearUp d spared).runOn s).1 = .ok ()) := by
  obtain ⟨result, swept⟩ := clearUp_swept d spared s
  have evicted := evicted_all (modulesToForget d)
    (direct.sameBut (SameBut.entering sourceVariable s .nil))
  rw [result]
  generalize ((clearUp d spared).runOn s).2 = u at swept ⊢
  generalize ((modulesToForget d).forM evict).runOn (s.entering s.globals sourceVariable .nil) = c
    at evicted swept ⊢
  have entered := entering_keeps s s.globals sourceVariable .nil
  have cut := loses_entering_nil s s.globals sourceVariable
  have metatables := entering_keepsMetatables s s.globals sourceVariable .nil
  refine ⟨⟨(entered.trans evicted.toKeeps).trans swept.toKeeps, ?_, fun loaded inUse => ?_,
    fun loaded inUse name uses => ?_, fun id x => ?_⟩,
    fun calm => evicted.passes fun text alarm => calm text (alarm_entering_source.1 alarm)⟩
  · refine swept.loses.absent (evicted.loses.absent ?_)
    exact (held_entering_nil ..).trans (if_pos ⟨rfl, rfl⟩)
  · have before := InUse.of_loses swept.toKeeps swept.loses inUse
    exact inUse_entering_source.1 ((evicted.inUse loaded).1 before)
  · have before := inUse_entering_source.2 inUse
    exact swept.loses.absent (evicted.gone loaded before name uses.mem_modulesToForget)
  · rcases swept.held id x with same | ⟨weak, lost⟩
    · rw [same]
      rcases evicted.held id x with same | ⟨inUse, among, -⟩
      · rw [same, held_entering_nil]
        split
        · next both => exact .inr (.inl both)
        · exact .inl rfl
      · exact .inr (.inr (.inl ⟨inUse_entering_source.1 inUse, among⟩))
    · have before := evicted.loses.isWeak evicted.metatables weak
      exact .inr (.inr (.inr ⟨cut.isWeak metatables before, lost⟩))

/-- A caught panic on the way to the cache goes on when a compilation is cleared up. -/
theorem clearUp_alarm (d : DialectSettings) (spared : List Value) (alarm : Alarm s text) :
    ((clearUp d spared).runOn s).1 = .error (.panic text) := by
  obtain ⟨name, rest, names⟩ := modulesToForget_eq_cons d
  rw [(clearUp_swept d spared s).1, names]
  exact runOn_evict_alarm (alarm_entering_source.2 alarm) name rest

/-- Whatever the way to the cache, the resolver, the caches and the globals stay. -/
theorem clearUp_keeps (d : DialectSettings) (spared : List Value) (s : Machine) :
    s.Keeps ((clearUp d spared).runOn s).2 := by
  obtain ⟨-, swept⟩ := clearUp_swept d spared s
  have evicts : Confined ((modulesToForget d).forM evict) :=
    confined_of_interpreted (.forM evict_interpreted _)
  exact ((entering_keeps s s.globals sourceVariable .nil).trans (evicts _).toKeeps).trans
    swept.toKeeps

/--
Where the cache is looked for through a function that sets the source, the source is back in the
end, and no module has left a table, unless it was collected from a weak one.
-/
theorem Meddles.clearUp_undone {m : Meddler} (meddles : Meddles m s) (d : DialectSettings)
    (spared : List Value) :
    ((clearUp d spared).runOn s).2.held s.globals sourceVariable = .bool true ∧
      ∀ id x, id ≠ s.globals ∨ x ≠ sourceVariable → ¬ s.IsWeak id →
        ((clearUp d spared).runOn s).2.held id x = s.held id x := by
  have cleared := SameBut.entering sourceVariable s .nil
  obtain ⟨name, rest, names⟩ := modulesToForget_eq_cons d
  obtain ⟨t, first, same, set_⟩ := (meddles.onward cleared).runOn_evict name
  obtain ⟨u, more, also, again⟩ := ((meddles.onward cleared).onward same).runOn_evict_all rest
    (same.globals.symm ▸ set_)
  have all := (cleared.trans same).trans also
  have run : ((modulesToForget d).forM evict).runOn (s.entering s.globals sourceVariable .nil) =
      (.ok (), u) := by
    rw [names, List.forM, runOn_bind_ok first, more]
  obtain ⟨-, swept⟩ := clearUp_swept d spared s
  rw [run] at swept
  have stays {id : TableId} (firm : ¬ s.IsWeak id) (x : String) :
      ((clearUp d spared).runOn s).2.held id x = u.held id x :=
    (swept.held id x).resolve_right fun lost => firm (all.isWeak (by decide) lost.1)
  have plain : ¬ s.IsWeak s.globals := by
    rintro ⟨fields, -, metatable, -⟩
    cases meddles.plain.symm.trans metatable
  exact ⟨(stays plain _).trans (same.globals ▸ again),
    fun id x other firm => (stays firm x).trans (all.held id x other)⟩

/-! ## Compilations that are cleared up -/

/--
However a compilation ends, its source is cleared from the table of globals, and the cache in use
loses all modules of the dialect; other entries stay as the compilation left them, unless they are
collected from weak tables.  This holds whenever the cache is found without the help of metatables.
The result is that of the compilation, unless a caught panic stands on the way to the cache: this
panic then goes on.  A resolver that is installed keeps the cache that it had before, so that it is
found in any case.
-/
theorem compileHere_clears_up (d : DialectSettings) (spared : List Value) (source : String)
    (s : Machine) (back : ((compileSource d source).runOn s).1 ≠ .error .endless) :
    let compiled := (compileSource d source).runOn s
    let ended := (compileHere d spared source).runOn s
    (Direct compiled.2 → Cleared d compiled.2 ended.2 ∧
        ((∀ text, ¬ Alarm compiled.2 text) → ended.1 = compiled.1)) ∧
      (∀ text, Alarm compiled.2 text → Direct compiled.2 ∧ (∀ loaded, ¬ InUse compiled.2 loaded) ∧
        ended.1 = outcome compiled.1 (.error (.panic text))) ∧
      compiled.2.Keeps ended.2 ∧
      (ended.1 = compiled.1 ∨ (∃ text, ended.1 = .error (.panic text)) ∨
        ended.1 = .error .endless) ∧
      ∀ r loaded, s.installed = some r → s.cacheOf r = some loaded →
        Direct compiled.2 ∧ (∀ text, ¬ Alarm compiled.2 text) ∧ InUse compiled.2 loaded ∧
          InUse ended.2 loaded := by
  intro compiled ended
  have keeps : s.Keeps compiled.2 :=
    (confined_of_interpreted (compileSource_interpreted d source) s).toKeeps
  have result : ended = (outcome compiled.1 ((clearUp d spared).runOn compiled.2).1,
      ((clearUp d spared).runOn compiled.2).2) :=
    runOn_ensuring (Prod.eta compiled).symm back (clearUp d spared)
  have after : compiled.2.Keeps ended.2 := by
    rw [result]
    exact clearUp_keeps d spared compiled.2
  refine ⟨fun direct => ?_, fun text alarm => ?_, after, ?_, fun r loaded installed cache => ?_⟩
  · obtain ⟨cleared, passes⟩ := cleared_clearUp d spared direct
    refine ⟨by rwa [result], fun calm => ?_⟩
    rw [result, passes calm]
    rfl
  · refine ⟨alarm.direct, fun _ => alarm.nowhere, ?_⟩
    rw [result, clearUp_alarm d spared alarm]
  · rw [result]
    exact outcome_cases _ _
  · have installed := keeps.installed.trans installed
    have cache := (keeps.caches r).trans cache
    have inUse : InUse compiled.2 loaded := .resolver installed cache
    exact ⟨.resolver installed cache, fun text alarm => alarm.nowhere inUse, inUse,
      .resolver (after.installed.trans installed) ((after.caches r).trans cache)⟩

/-- The machine that is left when the compilation finds no function to load modules with. -/
def stranded (s : Machine) (source : String) : Machine :=
  ((s.searched s.globals sourceVariable).entering s.globals sourceVariable (.text source)).searched
    s.globals "require"

theorem stranded_sameBut (s : Machine) (source : String) :
    s.SameBut sourceVariable (stranded s source) := by
  have looked := SameBut.searched sourceVariable s s.globals sourceVariable
  have entered := SameBut.entering sourceVariable (s.searched s.globals sourceVariable)
    (.text source)
  rw [looked.globals] at entered
  exact (looked.trans entered).trans (.searched ..)

/-- A compilation enters its source and fails where there is nothing to load modules with. -/
theorem runOn_compileSource_stranded (d : DialectSettings) (source : String)
    (entry : s.Unaided s.globals sourceVariable) (found : s.Unaided s.globals "require")
    (crosses : (s.held s.globals "require").Crosses)
    (other : ∀ f, s.held s.globals "require" ≠ .function f) :
    ∃ e, (compileSource d source).runOn s = (.error (.error e), stranded s source) := by
  obtain ⟨t, after⟩ : ∃ t, (s.searched s.globals sourceVariable).entering s.globals sourceVariable
      (.text source) = t := ⟨_, rfl⟩
  have entered : (scripted (ScriptM.setGlobalFor call sourceVariable (.text source))).runOn s =
      (.ok (), t) := by
    rw [← after]
    exact runOn_mapError_ok (ScriptM.runOn_setGlobalFor entry fun _ same => by cases same)
  have globals : t.globals = s.globals :=
    after ▸ (Resembles.searched s s.globals sourceVariable).globals
  have left : stranded s source = t.searched t.globals "require" := by
    rw [stranded, after, globals]
  have same := stranded_sameBut s source
  have held : t.held t.globals "require" = s.held s.globals "require" := by
    rw [← held_searched t t.globals "require", ← left, globals, same.held _ _ (.inr (by decide))]
  have unaided : t.Unaided t.globals "require" := by
    intro absent
    have metatables := same.metatables t.globals
    rw [left, metatable_searched, globals] at metatables
    exact globals ▸ metatables.trans (found (held ▸ absent))
  have looked : (ScriptM.globalFor call "require").runOn t =
      (.ok (s.held s.globals "require"), stranded s source) := by
    rw [ScriptM.runOn_globalFor, ScriptM.runOn_indexFor_unaided call unaided, held,
      ScriptM.receive_of_crosses crosses, left]
    rfl
  obtain ⟨e, refused⟩ := ScriptM.expectFunction_refused other (stranded s source)
  refine ⟨.script e, ?_⟩
  have stops : (moduleFunction d.parseModule "string").runOn t =
      (.error (.error e), stranded s source) := by
    rw [moduleFunction, runOn_bind_ok looked, runOn_bind_stop refused]
  rw [compileSource, runOn_bind_ok entered]
  exact runOn_bind_stop (runOn_mapError_stop stops) _

/-- Where the globals are plain and have no `require`, the compilation is cleared up at once. -/
theorem runOn_compileHere_stranded (d : DialectSettings) (spared : List Value) (source : String)
    (plain : (s.tables[s.globals.index]?.getD default).metatable = none)
    (missing : s.held s.globals "require" = .nil) :
    ((compileSource d source).runOn s).1 ≠ .error .endless ∧
      ((compileSource d source).runOn s).2 = stranded s source ∧
        ((compileHere d spared source).runOn s).2 =
          ((clearUp d spared).runOn (stranded s source)).2 := by
  obtain ⟨e, run⟩ := runOn_compileSource_stranded d source (fun _ => plain) (fun _ => plain)
    (missing ▸ nofun) (missing ▸ nofun)
  have back : (Except.error (.error e) : Except (Stop DialectError) String) ≠ .error .endless :=
    fun same => by cases same
  generalize stranded s source = t at run ⊢
  rw [run, compileHere, runOn_ensuring run back]
  exact ⟨back, rfl, rfl⟩

theorem held_single {id : TableId} {name : String} {v : Value}
    (table : s.tables[id.index]?.getD default = Table.empty.set (.text name) v) (x : String) :
    s.held id x = if x = name then v else .nil := by
  have same : (Value.text x).asKey = (Value.text name).asKey ↔ x = name := by
    simp [Value.text, Value.asKey, String.toByteArray_inj]
  rw [held, table, Table.get_set, Table.get_empty]
  simp only [same]

/-- A machine whose resolver has a module of the dialect in its cache, and no global variable. -/
def warm : Machine where
  tables := #[.empty, Table.empty.set (.text "moonscript.parse") (.bool true)]
  resolvers := #[{ loaded := some ⟨1⟩ }]
  installed := some 0

/-- The compilation finds no `require` and fails, and still the module leaves the cache. -/
theorem compileHere_clears_up_warm :
    ((compileSource {} "x = 1").runOn warm).1 ≠ .error .endless ∧
      warm.held ⟨1⟩ "moonscript.parse" = .bool true ∧
      ((compileHere {} [] "x = 1").runOn warm).2.held ⟨0⟩ sourceVariable = .nil ∧
      ((compileHere {} [] "x = 1").runOn warm).2.held ⟨1⟩ "moonscript.parse" = .nil := by
  obtain ⟨back, left, -⟩ := runOn_compileHere_stranded (s := warm) {} [] "x = 1" rfl
    (Table.get_empty _)
  obtain ⟨clears, -, -, -, found⟩ := compileHere_clears_up {} [] "x = 1" warm back
  obtain ⟨direct, -, inUse, -⟩ := found 0 ⟨1⟩ rfl rfl
  obtain ⟨cleared, -⟩ := clears direct
  have globals : ((compileSource {} "x = 1").runOn warm).2.globals = ⟨0⟩ := by
    rw [left, (stranded_sameBut warm "x = 1").globals]
    rfl
  exact ⟨back, (held_single rfl _).trans (if_pos rfl), globals ▸ cleared.source,
    cleared.forgotten ⟨1⟩ inUse _ .parse⟩

/--
A machine without a resolver, whose own cache holds a module of the dialect, but for which the
globals lead to another table in the place of that cache.
-/
def strayed : Machine where
  tables := #[
    Table.empty.set (.text "package") (.table ⟨1⟩),
    Table.empty.set (.text "loaded") (.table ⟨2⟩),
    .empty,
    Table.empty.set (.text "moonscript.parse") (.bool true)]
  loaded := ⟨3⟩

/--
A machine of that kind whose globals lead to no cache: a function in the metatable of `package` sets
the source when it is asked for one.
-/
def meddled : Machine where
  tables := #[
    Table.empty.set (.text "package") (.table ⟨1⟩),
    { Table.empty with metatable := some ⟨2⟩ },
    Table.empty.set (.text "__index") (.function ⟨0⟩),
    Table.empty.set (.text "moonscript.parse") (.bool true)]
  functions := #[.closure (.setting sourceVariable) #[0] (chunkText "@init.lua")]
  cells := #[.table ⟨0⟩]
  loaded := ⟨3⟩

section

theorem strayed_plain : ∀ index : Nat, (strayed.tables[index]?.getD default).metatable = none
  | 0 => (Table.metatable_set .empty (.text "package") (.table ⟨1⟩)).trans rfl
  | 1 => (Table.metatable_set .empty (.text "loaded") (.table ⟨2⟩)).trans rfl
  | 2 => rfl
  | 3 => (Table.metatable_set .empty (.text "moonscript.parse") (.bool true)).trans rfl
  | _ + 4 => rfl

theorem strayed_package : strayed.held strayed.globals "package" = .table ⟨1⟩ :=
  (held_single rfl _).trans (if_pos rfl)

theorem strayed_loaded : strayed.held ⟨1⟩ "loaded" = .table ⟨2⟩ :=
  (held_single rfl _).trans (if_pos rfl)

theorem strayed_direct : Direct strayed := by
  refine .package rfl (fun _ => strayed_plain _) (fun package found _ => strayed_plain _)
    fun package loaded found there => ?_
  cases strayed_package.symm.trans found
  cases strayed_loaded.symm.trans there
  exact ⟨by decide, by decide⟩

/-- The modules of a dialect stay in a cache to which the globals do not lead. -/
theorem compileHere_strayed :
    let ended := ((compileHere {} [] "x = 1").runOn strayed).2
    ended.held strayed.globals "package" = strayed.held strayed.globals "package" ∧
      ended.held ⟨1⟩ "loaded" = strayed.held ⟨1⟩ "loaded" ∧
        ended.held strayed.loaded "moonscript.parse" = .bool true := by
  intro ended
  obtain ⟨-, -, run⟩ := runOn_compileHere_stranded (s := strayed) {} [] "x = 1" (strayed_plain 0)
    ((held_single rfl _).trans (if_neg (by decide)))
  have same := stranded_sameBut strayed "x = 1"
  have inUse : InUse (stranded strayed "x = 1") ⟨2⟩ :=
    .sameBut same (.package rfl strayed_package strayed_loaded)
  obtain ⟨cleared, -⟩ := cleared_clearUp {} [] (strayed_direct.sameBut same)
  have firm (id : TableId) : ¬ (stranded strayed "x = 1").IsWeak id := by
    intro weak
    obtain ⟨fields, -, metatable, -⟩ := same.isWeak (by decide) weak
    cases (strayed_plain id.index).symm.trans metatable
  have unchanged (id : TableId) {name : String} (other : name ≠ sourceVariable)
      (apart : id ≠ ⟨2⟩) : ended.held id name = strayed.held id name := by
    dsimp only [ended]
    rw [run]
    rcases cleared.others id name with kept | ⟨-, source⟩ | ⟨also, -⟩ | ⟨weak, -⟩
    · exact kept.trans (same.held id name (.inr other))
    · exact absurd source other
    · exact absurd (also.unique inUse) apart
    · exact absurd weak (firm id)
  exact ⟨unchanged strayed.globals (by decide) (by decide), unchanged ⟨1⟩ (by decide) (by decide),
    (unchanged strayed.loaded (by decide) (by decide)).trans ((held_single rfl _).trans (if_pos rfl))⟩

/-- What is looked up in `package` there sets the source. -/
def meddler : Meddler := ⟨⟨1⟩, ⟨2⟩, ⟨0⟩, 0, chunkText "@init.lua"⟩

theorem meddled_meddles : Meddles meddler meddled where
  installed := rfl
  plain := (Table.metatable_set .empty (.text "package") (.table ⟨1⟩)).trans rfl
  packaged := (held_single rfl _).trans (if_pos rfl)
  missing := (show Table.get { Table.empty with metatable := some ⟨2⟩ } (.text "loaded") =
    Table.empty.get (.text "loaded") from rfl).trans (Table.get_empty _)
  metatable := rfl
  event := (held_single rfl _).trans (if_pos rfl)
  closure := rfl
  env := rfl
  level := by decide
  room := by decide

/-- The source is there again after everything was cleared up, and no module has left the cache. -/
theorem compileHere_meddled :
    let ended := ((compileHere {} [] "x = 1").runOn meddled).2
    ended.held meddled.globals sourceVariable = .bool true ∧
      ended.held meddled.loaded "moonscript.parse" = .bool true := by
  intro ended
  obtain ⟨-, -, run⟩ := runOn_compileHere_stranded (s := meddled) {} [] "x = 1"
    meddled_meddles.plain ((held_single rfl _).trans (if_neg (by decide)))
  have same := stranded_sameBut meddled "x = 1"
  obtain ⟨source, others⟩ := (meddled_meddles.onward same).clearUp_undone {} []
  have firm : ¬ (stranded meddled "x = 1").IsWeak ⟨3⟩ := by
    intro weak
    obtain ⟨fields, -, metatable, -⟩ := same.isWeak (by decide) weak
    cases (Table.metatable_set .empty (.text "moonscript.parse") (.bool true)).symm.trans metatable
  dsimp only [ended]
  rw [run]
  refine ⟨same.globals ▸ source, (others ⟨3⟩ _ (.inr (by decide)) firm).trans ?_⟩
  exact (same.held _ _ (.inr (by decide))).trans ((held_single rfl _).trans (if_pos rfl))

/-- Without a resolver, entries stay in other caches, and the source may come back. -/
theorem compileHere_leaves_entries :
    Uses {} "moonscript.parse" ∧
      (let ended := ((compileHere {} [] "x = 1").runOn strayed).2
       strayed.installed = none ∧
         ended.held strayed.globals "package" = strayed.held strayed.globals "package" ∧
           ended.held ⟨1⟩ "loaded" = strayed.held ⟨1⟩ "loaded" ∧
             ended.held strayed.loaded "moonscript.parse" = .bool true) ∧
      (let ended := ((compileHere {} [] "x = 1").runOn meddled).2
       meddled.installed = none ∧ ended.globals = meddled.globals ∧
         ended.held meddled.globals sourceVariable = .bool true ∧
           ended.held meddled.loaded "moonscript.parse" = .bool true) := by
  obtain ⟨package, loaded, own⟩ := compileHere_strayed
  obtain ⟨source, cached⟩ := compileHere_meddled
  obtain ⟨-, -, run⟩ := runOn_compileHere_stranded (s := meddled) {} [] "x = 1"
    meddled_meddles.plain ((held_single rfl _).trans (if_neg (by decide)))
  have globals : ((compileHere {} [] "x = 1").runOn meddled).2.globals = meddled.globals := by
    rw [run]
    exact (clearUp_keeps {} [] _).globals.trans (stranded_sameBut meddled "x = 1").globals
  exact ⟨.parse, ⟨rfl, package, loaded, own⟩, rfl, globals, source, cached⟩

end

end

end Dialect

end ScriptHost
