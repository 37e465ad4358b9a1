import ScriptHost.Execution
import ScriptHost.Proofs.NativeCalls
import ScriptHost.Proofs.NewInterpreters

/-!
# Invalid settings

Settings that are not valid are refused before a script runs.  A dialect is compiled before that:
its modules are found through the search paths of the same settings, and they have run when the
settings are refused.
-/

namespace ScriptHost

open MachineM ScriptM Machine

/-- The text of a file is called as the body of a module in a run, and the call ends well. -/
inductive RunsBody (files : Files) (name path : String) {ε α : Type} (m : MachineM ε α)
    (s : Machine) : Prop where
  | intro {depth : Nat} {text : String} {f : Value} {r t u : Machine} {values : List Value}
      (read : files.readText path = .ok text)
      (loaded : (Library.loadNamed ("@" ++ path) text.toByteArray).runOn r = (.ok f, t))
      (called : Includes (callFor (Calls.callAt depth) f [.text name]) t m s)
      (ended : (callFor (Calls.callAt depth) f [.text name]).runOn t = (.ok values, u))

section

variable {call : Caller} {s t u : Machine} {r : Nat} {name : String} {index : ModuleIndex}
  {ε ε' α β : Type}

theorem RunsBody.within {files : Files} {path : String} {n : MachineM ε' β} {m : MachineM ε α}
    (runs : RunsBody files name path n t) (inside : Includes n t m s) :
    RunsBody files name path m s := by
  obtain ⟨read, loaded, called, ended⟩ := runs
  exact ⟨read, loaded, called.trans inside, ended⟩

/-! ## Results without a change of tables -/

theorem send_tables (v : Value) (s : Machine) :
    ((send v : MachineM ε Value).runOn s).2.tables = s.tables := by
  cases v <;> rfl

theorem receive_tables (v : Value) (s : Machine) :
    ((receive v : MachineM ε Value).runOn s).2.tables = s.tables := by
  obtain ⟨faults, same⟩ := receive_faults (ε := ε) v s
  rw [same]

namespace Resolver

variable {depth : Nat} {v : Value}

/-! ## Modules without an entry -/

/-- A file that is run ends well only by a call of its text. -/
theorem runFile_runs {path : String}
    (run : (runFile (Calls.callAt depth) name path).runOn s = (.ok v, t)) :
    RunsBody s.files name path (runFile (Calls.callAt depth) name path) s := by
  rw [runFile, runOn_bind_ok (MachineM.runOn_get s)] at run
  cases read : s.files.readText path with
  | error cause =>
    rw [read] at run
    cases run
  | ok text =>
    rw [read] at run
    obtain ⟨_, u, logged, run⟩ := runOn_bind_eq_ok.1 run
    obtain ⟨f, w, loaded, run⟩ := runOn_bind_eq_ok.1 (mapError_eq_ok run)
    obtain ⟨values, x, ended, -⟩ := runOn_bind_eq_ok.1 run
    refine ⟨read, loaded, ?_, ended⟩
    refine .rest (MachineM.runOn_get s) ?_
    rw [read]
    exact .rest logged (.mapError _ (.rest loaded (.first _ .here)))

/-- A name without a loader of its own is loaded from the script file that the index has for it. -/
theorem load_runs {loaded : Option TableId} {loading : List String}
    (settings : s.resolvers[r]?.getD default = { index, loaded, loading })
    (run : (load (Calls.callAt depth) r name).runOn s = (.ok v, t)) :
    ∃ path, index.get? name = some (.script path) ∧
      RunsBody s.files name path (load (Calls.callAt depth) r name) s := by
  rw [load, runOn_bind_ok (runOn_get r s), settings] at run
  dsimp only [List.lookup] at run
  cases found : index.get? name with
  | none =>
    rw [found] at run
    cases run
  | some file =>
    rw [found] at run
    cases file with
    | native path => cases run
    | script path =>
      refine ⟨path, rfl, (runFile_runs run).within (.rest (runOn_get r s) ?_)⟩
      rw [settings]
      dsimp only [List.lookup]
      rw [found]
      exact .here

/-- A name that is not being loaded has its loader run, and is loaded only if that ends well. -/
theorem loadOnce_includes (free : name ∉ s.marks r)
    (run : (loadOnce call r name).runOn s = (.ok v, t)) :
    Includes (load call r name) (s.mark ⟨r, name⟩) (loadOnce call r name) s ∧
      ∃ u, (load call r name).runOn (s.mark ⟨r, name⟩) = (.ok v, u) := by
  have allowed : ¬ (s.resolvers[r]?.getD default).loading.contains name = true := by
    simpa [Machine.marks] using free
  have started : (modifyAt r fun resolver =>
      { resolver with loading := name :: resolver.loading } : ModuleM Unit).runOn s =
        (.ok (), s.mark ⟨r, name⟩) := rfl
  constructor
  · refine .rest (runOn_get r s) ?_
    rw [if_neg allowed]
    exact .rest started (.first _ (.attempt .here))
  · rw [loadOnce_free ⟨r, name⟩ free] at run
    rcases loaded : (load call r name).runOn (s.mark ⟨r, name⟩) with ⟨(_ | _ | _) | w, u⟩ <;>
      rw [loaded] at run <;> cases run
    exact ⟨u, rfl⟩

/-- A module without an entry, when no load is in progress, is loaded from its script file. -/
theorem require_runs {cache : TableId}
    (settings : s.resolvers[r]? = some { index, loaded := some cache })
    (absent : s.held cache name = .nil)
    (run : (require (Calls.callAt depth) r name).runOn s = (.ok v, t)) :
    ∃ path, index.get? name = some (.script path) ∧
      RunsBody s.files name path (require (Calls.callAt depth) r name) s := by
  have known : s.cacheOf r = some cache := by
    rw [Machine.cacheOf, settings]
    rfl
  have nothing : (cached cache name).runOn s = (.ok .nil, s.searched cache name) := by
    rw [runOn_cached, absent]
    rfl
  rw [require_missed known absent] at run
  obtain ⟨w, u, loaded, -⟩ := runOn_bind_eq_ok.1 run
  have here : (s.searched cache name).resolvers[r]? = some { index, loaded := some cache } := by
    rwa [resolvers_searched]
  have free : name ∉ (s.searched cache name).marks r := by
    rw [Machine.marks, here]
    exact List.not_mem_nil
  obtain ⟨inside, x, loads⟩ := loadOnce_includes free loaded
  have marked : ((s.searched cache name).mark ⟨r, name⟩).resolvers[r]?.getD default =
      { index, loaded := some cache, loading := [name] } := by
    simp [Machine.mark, Array.getElem?_modify, settings]
  obtain ⟨path, found, runs⟩ := load_runs marked loads
  refine ⟨path, found, ?_⟩
  have files : ((s.searched cache name).mark ⟨r, name⟩).files = s.files :=
    files_searched s cache name
  rw [files] at runs
  exact (runs.within inside).within
    (.rest (runOn_cache_of_cacheOf known) (.rest nothing (.first _ .here)))

end Resolver

end

/-! ## Modules that the host requires -/

section

variable {s t : Machine} {r : Nat} {name module : String} {index : ModuleIndex} {v : Value}
  {id : FunctionId}

/-- A module that the host requires with the function of a resolver is what the resolver has. -/
theorem firstFor_includes (function : s.functions[id.index]? = some (.native (.resolve r)))
    (run : (firstFor call (.function id) [.text name]).runOn s = (.ok v, t)) :
    ∃ depth u w x, s.Aside u ∧
      Includes (Resolver.require (Calls.callAt depth) r name) u
        (firstFor call (.function id) [.text name]) s ∧
      (Resolver.require (Calls.callAt depth) r name).runOn u = (.ok w, x) ∧
      t.tables = x.tables := by
  obtain ⟨results, y, called, received⟩ := runOn_bind_eq_ok.1 run
  rw [runFor, mapM_send_text, pure_bind] at called
  obtain ⟨depth, u, z, aside, includes, ran, after⟩ :=
    Calls.callAt_native_includes function (runOn_protect_eq_ok.1 called)
  rw [Calls.native_resolve] at ran includes
  obtain ⟨w, x, required, answered⟩ := runOn_bind_eq_ok.1 (runOn_ofHost_eq_ok.1 ran)
  obtain ⟨w', x', passed, done⟩ := runOn_bind_eq_ok.1 answered
  cases done
  refine ⟨depth, u, w, x, aside, ?_, mapError_eq_ok required, ?_⟩
  · have inner : Includes (Resolver.require (Calls.callAt depth) r name) u _ s :=
      Includes.trans (.ofHost (.first _ (.mapError _ .here))) includes
    have sent : ([.text name].mapM send : MachineM ScriptError (List Value)).runOn s =
        (.ok [.text name], s) := by
      rw [mapM_send_text]
      rfl
    exact .first _ (.rest sent (.first _ inner.attempt))
  · have receives := receive_tables (ε := ScriptError) (first [w']) y
    have sends := send_tables (ε := ScriptError) w x
    rw [received] at receives
    rw [passed] at sends
    obtain ⟨frames, nesting, rfl⟩ := after
    exact receives.trans sends

/-- A module that is in the cache of such a machine has no function for a dialect. -/
theorem Machine.Lacks.moduleFunction_fails (lacks : s.Lacks name) (id : TableId) (f : Value) :
    (do match ← indexFor call (.table id) (.text name) with
        | .nil => fail (.runtime s!"{module} has no function {name}")
        | v => Published.expectFunction v : MachineM ScriptError Value).runOn s ≠ (.ok f, t) := by
  intro run
  obtain ⟨v, u, found, run⟩ := runOn_bind_eq_ok.1 run
  rw [runOn_indexFor_unaided call (lacks.unaided id name)] at found
  have noFunction := lacks.functions id
  cases v with
  | function g =>
    rcases receive_eq_ok found with ⟨same, -⟩ | ⟨_, -, -, same, -⟩
    · exact noFunction g same.symm
    · cases same
  | _ => cases run

namespace Dialect

/-- The first function that a dialect asks for comes from a module whose body runs for it. -/
theorem moduleFunction_runs (equipped : s.Equipped index r) {f : Value}
    (run : (moduleFunction module "string").runOn s = (.ok f, t)) :
    ∃ path, index.get? module = some (.script path) ∧
      RunsBody s.files module path (moduleFunction module "string") s := by
  obtain ⟨id, held, function⟩ := equipped.require
  obtain ⟨cache, settings⟩ := equipped.resolver
  have global : (globalFor call "require").runOn s =
      (.ok (.function id), s.searched s.globals "require") :=
    runOn_globalFor_held held nofun nofun
  have expected : (Published.expectFunction (.function id)).runOn
      (s.searched s.globals "require") = (.ok (.function id), s.searched s.globals "require") := rfl
  rw [moduleFunction, runOn_bind_ok global, runOn_bind_ok expected] at run
  obtain ⟨v, x, required, run⟩ := runOn_bind_eq_ok.1 run
  obtain ⟨table, y, isTable, run⟩ := runOn_bind_eq_ok.1 run
  obtain ⟨depth, u, w, z, ⟨frames, nesting, rfl⟩, includes, ran, tables⟩ :=
    firstFor_includes (by rwa [functions_searched]) required
  have known : (s.searched s.globals "require").resolvers[r]? =
      some { index, loaded := some cache } := by rwa [resolvers_searched]
  have lacks := equipped.lacks.searched s.globals "require"
  have files := files_searched s s.globals "require"
  generalize s.searched s.globals "require" = looked at *
  by_cases absent : looked.held cache module = .nil
  · obtain ⟨path, found, runs⟩ := Resolver.require_runs
      (s := { looked with frames, nesting }) known absent ran
    have here : RunsBody s.files module path _ _ := files ▸ runs.within includes
    exact ⟨path, found, here.within (.rest global (.rest expected (.first _ .here)))⟩
  -- what is in the cache was there before any script ran, and then no function can come of it
  · have cacheOf : ({ looked with frames, nesting } : Machine).cacheOf r = some cache := by
      rw [cacheOf, known]
      rfl
    rw [Resolver.require_found cacheOf absent] at ran
    have same : z.tables = _ := (congrArg (·.2.tables) ran).symm.trans (receive_tables _ _)
    have aside : ({ looked with frames, nesting } : Machine).Lacks "string" := lacks.of_tables rfl
    have stays : z.Lacks "string" := (aside.searched cache module).of_tables same
    cases v with
    | table other =>
      cases isTable
      exact absurd run ((stays.of_tables tables).moduleFunction_fails _ f)
    | _ => cases isTable

/-- All that is done for a compilation on a machine of its own. -/
def compilation (modules : ModuleSettings) (d : DialectSettings) (source : String) :
    DialectM String := do
  discard (scripted (resolverFor modules))
  compileHere d [] source

theorem compile_eq (modules : ModuleSettings) (d : DialectSettings) (files : Files)
    (environment : Variables) (source : String) : compile modules d files environment source =
      ((compilation modules d source).runOn (.new files environment)).1 := rfl

/-- A source that is compiled gets a function from the first module of the dialect. -/
theorem compileSource_runs {d : DialectSettings} {source code : String}
    (equipped : s.Equipped index r) (run : (compileSource d source).runOn s = (.ok code, t)) :
    ∃ path, index.get? d.parseModule = some (.script path) ∧
      RunsBody s.files d.parseModule path (compileSource d source) s := by
  have crosses : (Value.text source).Crosses := fun _ same => by cases same
  have entered : (scripted (setGlobalFor call sourceVariable (.text source))).runOn s =
      (.ok (), (s.searched s.globals sourceVariable).entering s.globals sourceVariable
        (.text source)) := by
    rw [scripted, runOn_mapError,
      runOn_setGlobalFor (fun _ => equipped.lacks.metatables s.globals) crosses]
    rfl
  have other : sourceVariable ≠ "require" := by decide
  have still := (equipped.searched s.globals sourceVariable).entering s.globals
    (v := .text source) other fun _ same => by cases same
  have files : ((s.searched s.globals sourceVariable).entering s.globals sourceVariable
      (.text source)).files = s.files := files_searched s s.globals sourceVariable
  rw [compileSource, runOn_bind_ok entered] at run
  obtain ⟨f, u, parse, -⟩ := runOn_bind_eq_ok.1 run
  obtain ⟨path, found, runs⟩ := moduleFunction_runs still (mapError_eq_ok parse)
  rw [files] at runs
  exact ⟨path, found, runs.within (.rest entered (.first _ (.mapError _ .here)))⟩

theorem compilation_runs {modules : ModuleSettings} {d : DialectSettings} {files : Files}
    {source code : String}
    (resolvers : ∀ {r t}, (resolverFor modules).runOn s = (.ok r, t) →
      t.Equipped index r ∧ t.files = files)
    (compiled : ((compilation modules d source).runOn s).1 = .ok code) :
    ∃ path, index.get? d.parseModule = some (.script path) ∧
      RunsBody files d.parseModule path (compilation modules d source) s := by
  rcases run : (compilation modules d source).runOn s with ⟨result, t⟩
  obtain rfl : result = .ok code := by rwa [run] at compiled
  obtain ⟨_, u, installed, here⟩ := runOn_bind_eq_ok.1 run
  obtain ⟨r, v, resolver, done⟩ := runOn_bind_eq_ok.1 installed
  cases done
  obtain ⟨equipped, same⟩ := resolvers (mapError_eq_ok resolver)
  rcases inner : (compileSource d source).runOn u with ⟨answer, w⟩
  obtain rfl : answer = .ok code := ensuring_eq_ok inner here
  obtain ⟨path, found, runs⟩ := compileSource_runs equipped inner
  rw [same] at runs
  exact ⟨path, found, runs.within (.rest installed (.ensuring _ .here))⟩

/-- A source is compiled only by a dialect whose first module was found and has run. -/
theorem compile_runs {modules : ModuleSettings} {d : DialectSettings} {files : Files}
    {environment : Variables} {source code : String}
    (compiled : compile modules d files environment source = .ok code) :
    ∃ path, (ModuleIndex.ofSettings modules files environment).get? d.parseModule =
        some (.script path) ∧
      RunsBody files d.parseModule path (compilation modules d source)
        (.new files environment) := by
  rw [compile_eq] at compiled
  exact compilation_runs (fun run => equipped_new run) compiled

end Dialect

end

namespace Execution

theorem runOn_caught {α : Type} (m : RunM α) (s : Machine) :
    (caught m).runOn s =
      match m.runOn s with
      | (.error (.panic text), t) => (.error (.error (.panicked text)), t)
      | outcome => outcome := by
  simp only [runOn, caught, ExceptT.run_mk, StateT.run_bind]
  rcases m.run.run s with ⟨(_ | _ | _) | _, t⟩ <;> rfl

/--
Settings that are not valid are refused, and the machine stays as it was.  A run that compiles a
dialect first answers with whatever stopped the compilation.  It refuses the settings only if
nothing did, and then the first module of the dialect was found through the search paths of these
settings, and its body was called.
-/
theorem invalid_settings_answered {settings : Settings} {what : InvalidSetting}
    (invalid : settings.validate = .error what) (host : Host) (context : ExecContext)
    (source : String) (client : HostValue) (s : Machine) :
    (perform settings host context source client).runOn s =
        (.error (.error (.settings (.invalid what))), s) ∧
      (performDialect settings host context source client).runOn s =
        (match Dialect.compile settings.modules settings.dialect s.files s.environment source with
          | .ok _ => .error (.error (.settings (.invalid what)))
          | .error stop => .error (stop.map .compile), s) ∧
      (((performDialect settings host context source client).runOn s).1 =
          .error (.error (.settings (.invalid what))) →
        ∃ path, (ModuleIndex.ofSettings settings.modules s.files s.environment).get?
            settings.dialect.parseModule = some (.script path) ∧
          RunsBody s.files settings.dialect.parseModule path
            (Dialect.compilation settings.modules settings.dialect source)
            (.new s.files s.environment)) := by
  have refused (code : String) : (perform settings host context code client).runOn s =
      (.error (.error (.settings (.invalid what))), s) := by
    have checked : (valid settings).runOn s = (.error (.error (.settings (.invalid what))), s) := by
      rw [valid, invalid]
      rfl
    have stops : (start settings host).runOn s = _ := runOn_bind_stop checked _
    rw [perform, runOn_caught, runOn_bind_stop stops]
  have answered : (performDialect settings host context source client).runOn s =
      (match Dialect.compile settings.modules settings.dialect s.files s.environment source with
        | .ok _ => .error (.error (.settings (.invalid what)))
        | .error stop => .error (stop.map .compile), s) := by
    rw [performDialect, runOn_bind_ok (runOn_get s)]
    cases Dialect.compile settings.modules settings.dialect s.files s.environment source with
    | ok code => exact refused code
    | error stop => rfl
  refine ⟨refused source, answered, fun settled => ?_⟩
  rw [answered] at settled
  cases compiled :
    Dialect.compile settings.modules settings.dialect s.files s.environment source with
  | ok code => exact Dialect.compile_runs compiled
  | error stop =>
    rw [compiled] at settled
    cases stop <;> cases settled

/-- Settings with a namespace that has the name of the client. -/
def secondClient : Settings where
  binding := ⟨.lenient, [⟨"client", "store"⟩]⟩

/-- Without the modules of the dialect, it is not the settings that are complained about. -/
theorem invalid_settings_answered_client :
    let host : Host := ⟨[], {}⟩
    secondClient.validate = .error (.namespaceTaken "client") ∧
      (perform secondClient host {} "x = 1" .nil).runOn {} =
        (.error (.error (.settings (.invalid (.namespaceTaken "client")))), {}) ∧
      ((performDialect secondClient host {} "x = 1" .nil).runOn {}).1 ≠
        .error (.error (.settings (.invalid (.namespaceTaken "client")))) := by
  intro host
  have invalid : secondClient.validate = .error (.namespaceTaken "client") := by decide
  obtain ⟨refused, -, runs⟩ := invalid_settings_answered invalid host {} "x = 1" .nil {}
  refine ⟨invalid, refused, fun answered => ?_⟩
  obtain ⟨path, found, -⟩ := runs answered
  have missing : (ModuleIndex.ofSettings {} {} []).get? "moonscript.parse" = none := by decide
  exact absurd (missing.symm.trans found) nofun

end Execution

end ScriptHost
