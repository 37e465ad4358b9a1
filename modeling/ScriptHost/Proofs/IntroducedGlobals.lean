import ScriptHost.Proofs.GlobalTables
import ScriptHost.Proofs.NamespaceNames
import ScriptHost.Proofs.NewInterpreters

/-!
# The globals of a run

A run that is readied gives its script `print`, `log` and `require`, and then a client, the context
and the namespaces of its settings.  Settings are valid only if all these have different names.  So
none takes the place of another one, although the names are checked in one place and the globals set
in others.
-/

namespace ScriptHost

open MachineM Machine

/-! ## Namespaces -/

namespace Machine

variable {b : Publisher} {s : Machine} {id : TableId} {p : String} {entries : List Entry}

/-- A table of the entries of a package, one under each registered name and no others. -/
structure HoldsPackage (b : Publisher) (s : Machine) (id : TableId) (entries : List Entry)
    (p : String) : Prop where
  plain : (s.tables[id.index]?.getD default).metatable = none
  keys : ((s.pairsOf id).map (·.1)).Perm ((Entry.namesIn p entries).map .text)
  items (name : String) (registered : name ∈ Entry.namesIn p entries) :
    ∃ e, Entry.latestIn p entries name = some e ∧ s.Shows b id name (some e.binding)

theorem Shows.held_eq_nil_iff {x : String} {last : Option Binding} (shows : s.Shows b id x last) :
    s.held id x = .nil ↔ last = none := by
  cases shows with
  | nothing absent => exact iff_of_true absent rfl
  | native offers =>
    obtain ⟨f, there, -⟩ := offers
    exact iff_of_false (by rw [there]; nofun) nofun
  | self there => exact iff_of_false (by rw [there]; nofun) nofun
  | type there => exact iff_of_false (by rw [there]; nofun) nofun

/-- The keys of a table in which names were published are these names. -/
theorem ShowsAll.keys_perm {bindings : List (String × Binding)} (all : s.ShowsAll b id bindings)
    (distinct : (bindings.map (·.1)).Nodup) :
    ((s.pairsOf id).map (·.1)).Perm (bindings.map fun pair => .text pair.1) := by
  have texts : (bindings.map fun pair => Value.text pair.1).Nodup := by
    rw [← Function.comp_def Value.text, ← List.map_map]
    exact distinct.map fun x y same => by
      simpa [Value.text, String.toByteArray_inj] using same
  refine (List.perm_ext_iff_of_nodup (Table.live_keys_nodup _) texts).2 fun key => ?_
  have there (x : String) : s.held id x ≠ .nil ↔ ∃ binding, (x, binding) ∈ bindings := by
    rw [Ne, (all.shows x).held_eq_nil_iff, lastUnder_eq_none]
    simp
  constructor
  · intro inside
    obtain ⟨⟨_, v⟩, pair, rfl⟩ := List.mem_map.1 inside
    obtain ⟨x, rfl⟩ := all.texts _ v pair
    obtain ⟨-, found, present⟩ := Table.mem_live.1 pair
    obtain ⟨binding, among⟩ := (there x).1 fun absent => present (found.symm.trans absent)
    exact List.mem_map.2 ⟨(x, binding), among, rfl⟩
  · intro inside
    obtain ⟨⟨x, binding⟩, among, rfl⟩ := List.mem_map.1 inside
    exact List.mem_map.2 ⟨(.text x, s.held id x),
      Table.mem_live.2 ⟨rfl, rfl, (there x).2 ⟨binding, among⟩⟩, rfl⟩

theorem ShowsAll.holdsPackage (plain : ∀ e ∈ entries, e.Plain)
    (built : b.registry = (Registrations.registerAll {} entries).toRegistry)
    (all : s.ShowsAll b id ((b.registry.package p).map fun e => (e.name, e.binding))) :
    s.HoldsPackage b id entries p := by
  have indexes := Registrations.indexes_registerAll entries plain
  have names : ((b.registry.package p).map fun e => (e.name, e.binding)).map (·.1) =
      Entry.namesIn p entries := by
    rw [List.map_map, built]
    exact indexes.names_package plain p
  have distinct := names ▸ Entry.nodup_namesIn p entries
  refine ⟨all.plain, ?_, fun name registered => ?_⟩
  · have keys := all.keys_perm distinct
    rwa [← names, List.map_map]
  · have among : Entry.latestIn p entries name ∈ (b.registry.package p).map some := by
      rw [built]
      exact (indexes.package_eq plain p).symm ▸ List.mem_map_of_mem registered
    obtain ⟨e, inside, last⟩ := List.mem_map.1 among
    obtain rfl := Entry.name_of_latestIn last.symm
    refine ⟨e, last.symm, ?_⟩
    have shown := all.shows e.name
    have only := lastUnder_of_nodup distinct (List.mem_map.2 ⟨e, inside, rfl⟩)
    rwa [only] at shown

end Machine

/-! ## The steps of a run before its script -/

namespace Execution

variable {b : Publisher} {s t : Machine}

/-- Namespaces that have different names are all there in the end. -/
theorem runOn_publishNamespaces (b : Publisher) (receptive : s.Receptive)
    {namespaces : List NamespaceSettings} (distinct : (namespaces.map (·.name)).Nodup) :
    ∃ t, (publishNamespaces b namespaces).runOn s = (.ok (), t) ∧
      Brings (namespaces.map (·.name)) s t ∧
      ∀ ns ∈ namespaces, ∃ id, t.HasGlobal b ns.name id
        ((b.registry.package ns.package).map fun e => (e.name, e.binding)) := by
  induction namespaces generalizing s with
  | nil => exact ⟨s, rfl, .refl s, nofun⟩
  | cons ns rest ih =>
    obtain ⟨new, distinct⟩ := List.nodup_cons.1 distinct
    obtain ⟨id, t, first, brings, shown⟩ :=
      Publisher.runOn_publishPackageAs b receptive ns.name ns.package
    obtain ⟨u, others, more, each⟩ := ih (brings.receptive receptive) distinct
    refine ⟨u, ?_, brings.trans more, fun other among => ?_⟩
    · rw [publishNamespaces, runOn_bind_ok (Publisher.runOn_discard first), others]
    · rcases List.mem_cons.1 among with rfl | among
      · exact ⟨id, shown.brings more new⟩
      · exact each other among

/-- What a run installs itself before it is given a client. -/
structure Readied (execution : Execution) (index : ModuleIndex) (s : Machine) : Prop where
  receptive : s.Receptive
  print : s.Offers s.globals "print" .printer
  log : s.Offers s.globals "log" .logger
  require : s.Offers s.globals "require" (.resolve execution.resolver)
  resolver : ∃ resolver, s.resolvers[execution.resolver]? = some resolver ∧ resolver.index = index

theorem Readied.brings {execution : Execution} {index : ModuleIndex} {names : List String}
    (readied : execution.Readied index s) (brings : Brings names s t)
    (others : ∀ x ∈ ["print", "log", "require"], x ∉ names) : execution.Readied index t where
  receptive := brings.receptive readied.receptive
  print := readied.print.brings brings (others _ (by simp))
  log := readied.log.brings brings (others _ (by simp))
  require := readied.require.brings brings (others _ (by simp))
  resolver := by
    rw [brings.resolvers]
    exact readied.resolver

/-- A global that is a proxy of an object, with its methods and the items of its package. -/
def HasObject (b : Publisher) (s : Machine) (x : String) (o : ObjectId) (shape : Shape) : Prop :=
  ∃ id, s.held s.globals x = .table id ∧ s.unwrap? id = some (.ptr (some o)) ∧
    s.ShowsObject b id o (b.methodsOf shape) (b.registry.package shape.package)

theorem HasObject.of_proxy {x : String} {id : TableId} {o : ObjectId} {shape : Shape}
    (proxy : s.HasProxy b x id o shape) : HasObject b s x o shape :=
  ⟨id, proxy.global, by rw [unwrap?, proxy.handle]; rfl, proxy.shows.showsObject⟩

/-- The object that scripts see of a context. -/
def contextObject (context : ExecContext) : Instance where
  shape := ExecContext.shape
  fields := ExecContext.layout.fields context

/-- The object of a context is new when it is published. -/
theorem runOn_publishContext (b : Publisher) (receptive : s.Receptive) (context : ExecContext) :
    ∃ o table t, (do
        let o ← mapError (fun e => .crossing (.host e))
          (onObjects id (ExecContext.layout.new context))
        discard (b.publishObject "ctx" (.ptr (some o))) : PublishM Unit).runOn s = (.ok (), t) ∧
      Brings ["ctx"] s t ∧ o.index < t.objects.instances.size ∧
      t.objects.get o = contextObject context ∧ t.HasProxy b "ctx" table o ExecContext.shape := by
  let made : Machine := { s with objects := (s.objects.add (contextObject context)).2 }
  let o : ObjectId := ⟨s.objects.instances.size⟩
  have makes : Brings [] s made := .newObject s (contextObject context)
  have known : o.index < made.objects.instances.size := by simp [made, o, Objects.add]
  have new : made.objects.get o = contextObject context := by
    simp [made, o, Objects.add, Objects.get]
  have added : (onObjects id (ExecContext.layout.new context) :
      MachineM HostError ObjectId).runOn s = (.ok o, made) := rfl
  obtain ⟨table, t, published, brings, proxy⟩ :=
    Publisher.runOn_publishObject b (makes.receptive receptive) "ctx" o
  refine ⟨o, table, t, ?_, makes.trans brings, ?_, (brings.object known).trans new, ?_⟩
  · rw [runOn_bind_ok (runOn_mapError_ok added)]
    exact Publisher.runOn_discard published
  · obtain ⟨more, objects⟩ := brings.objects
    rw [objects, Array.size_append]
    exact Nat.lt_add_right _ known
  · rw [new] at proxy
    exact proxy

/-- The globals that the script of a run finds. -/
structure Introduced (execution : Execution) (index : ModuleIndex) (entries : List Entry)
    (context : ExecContext) (client : ObjectId) (shape : Shape) (s : Machine) : Prop
    extends Readied execution index s where
  client : HasObject execution.publisher s "client" client shape
  ctx : ∃ o, s.objects.get o = contextObject context ∧
    HasObject execution.publisher s "ctx" o ExecContext.shape
  namespaces : ∀ ns ∈ execution.settings.binding.namespaces, ∃ id,
    s.held s.globals ns.name = .table id ∧
      s.HoldsPackage execution.publisher id entries ns.package

theorem runOn_introduce {execution : Execution} {index : ModuleIndex} {entries : List Entry}
    (readied : execution.Readied index s) (plain : ∀ e ∈ entries, e.Plain)
    (built : execution.host.registry = (Registrations.registerAll {} entries).toRegistry)
    (distinct : (["print", "log", "require", "client", "ctx"] ++
      execution.settings.binding.namespaces.map (·.name)).Nodup)
    (context : ExecContext) (client : ObjectId) :
    ∃ t, (execution.introduce context (.ptr (some client))).runOn s = (.ok (), t) ∧
      (∀ x ∈ ["print", "log", "require"], t.held t.globals x = s.held s.globals x) ∧
      execution.Introduced index entries context client (s.objects.get client).shape t := by
  let b := execution.publisher
  let names := execution.settings.binding.namespaces.map (·.name)
  have free {x : String} (inside : x ∈ ["print", "log", "require", "client", "ctx"])
      {more : List String} (other : x ∉ more) : x ∉ more ++ names := by
    rw [List.mem_append, not_or]
    exact ⟨other, fun also => (List.nodup_append.1 distinct).2.2 x inside x also rfl⟩
  obtain ⟨clientId, t, first, brings, clientProxy⟩ :=
    Publisher.runOn_publishObject b readied.receptive "client" client
  have receptive := brings.receptive readied.receptive
  obtain ⟨o, ctxId, u, second, bringsCtx, known, stands, ctxProxy⟩ :=
    runOn_publishContext b receptive context
  have receptive := bringsCtx.receptive receptive
  obtain ⟨w, last, bringsAll, spaces⟩ :=
    runOn_publishNamespaces b receptive (List.nodup_append.1 distinct).2.1
  have whole := (brings.trans bringsCtx).trans bringsAll
  have others (x : String) (among : x ∈ ["print", "log", "require"]) :
      x ∉ ["client"] ++ ["ctx"] ++ names := free (by revert x; simp) (by revert x; decide)
  refine ⟨w, ?_, fun x among => whole.globals ▸ whole.held x (others x among),
    readied.brings whole others,
    .of_proxy (clientProxy.brings (bringsCtx.trans bringsAll) (free (by simp) (by decide))),
    ⟨o, (bringsAll.object known).trans stands,
      .of_proxy (ctxProxy.brings bringsAll (free (by simp) List.not_mem_nil))⟩,
    fun ns among => ?_⟩
  · rw [introduce]
    refine runOn_mapError_ok ?_
    rw [runOn_bind_ok (Publisher.runOn_discard first), ← bind_assoc, runOn_bind_ok second]
    exact last
  · obtain ⟨id, shown⟩ := spaces ns among
    exact ⟨id, shown.global, shown.shows.holdsPackage plain built⟩

end Execution

/-! ## The start of a run -/

/-- Modules of a second interpreter leave a resolver its index. -/
theorem Resolver.runOn_installBridge {ε : Type} {s : Machine} (r : Nat) (modules : ModuleSettings)
    (bridge : BridgeSettings) {resolver : Resolver} (found : s.resolvers[r]? = some resolver) :
    ∃ resolvers, (installBridge r modules bridge : MachineM ε Unit).runOn s =
        (.ok (), { s with resolvers }) ∧
      ∃ other, resolvers[r]? = some other ∧ other.index = resolver.index := by
  rw [installBridge]
  induction bridge.modules generalizing s resolver with
  | nil => exact ⟨s.resolvers, rfl, resolver, found, rfl⟩
  | cons module rest ih =>
    let adding (resolver : Resolver) : Resolver := { resolver with
      preloads := setPair module (.bridge modules) resolver.preloads }
    let made : Machine := { s with resolvers := s.resolvers.modify r adding }
    have first : (preload r module (.bridge modules) : MachineM ε Unit).runOn s = (.ok (), made) :=
      rfl
    have there : made.resolvers[r]? = some (adding resolver) := by
      simp [made, Array.getElem?_modify, found]
    obtain ⟨resolvers, others, other, last, same⟩ := ih there
    exact ⟨resolvers, (runOn_bind_ok first _).trans others, other, last, same⟩

namespace Execution

variable {s t : Machine}

/-- The functions that a run has itself, on a machine that is readied for proxies. -/
theorem runOn_publishFunctions (b : Publisher) (receptive : s.Receptive) :
    ∃ t, (do
        Crossing.enable
        discard (b.publishNative none "print" .printer)
        discard (b.publishNative none "log" .logger) : PublishM Unit).runOn s = (.ok (), t) ∧
      Brings ["print", "log"] s t ∧ t.objects = s.objects ∧ t.Offers t.globals "print" .printer ∧
      t.Offers t.globals "log" .logger := by
  let enabled : Machine := { s with handles := some (s.handles.getD .empty) }
  have enables : (Crossing.enable : PublishM Unit).runOn s = (.ok (), enabled) := rfl
  have keeps : Brings [] s enabled := { Brings.refl s with
    handles := fun id _ handle found => by
      cases ready : s.handles with
      | none => simp [handle?, ready] at found
      | some slots => simpa [handle?, enabled, ready] using found }
  have receptive := keeps.receptive receptive
  obtain ⟨_, t, first, brings, kept, print⟩ := b.runOn_publishGlobal receptive "print" .printer
  obtain ⟨_, u, second, more, still, log⟩ :=
    b.runOn_publishGlobal (brings.receptive receptive) "log" .logger
  refine ⟨u, ?_, (keeps.trans brings).trans more, still.trans kept, print.brings more (by decide),
    log⟩
  rw [runOn_bind_ok enables, runOn_bind_ok (Publisher.runOn_discard first),
    Publisher.runOn_discard second]

/-- A new interpreter gets a resolver over the modules that settings name. -/
theorem runOn_resolverFor_new (modules : ModuleSettings) (files : Files) (environment : Variables)
    (objects : Objects) (handles : Option (Arena Handle)) :
    ∃ r t, (Dialect.resolverFor modules).runOn
        { Machine.new files environment objects with handles } = (.ok r, t) ∧
      t.objects = objects ∧ t.Receptive ∧ t.Offers t.globals "require" (.resolve r) ∧
      ∃ resolver, t.resolvers[r]? = some resolver ∧
        resolver.index = .ofSettings modules files environment := by
  obtain ⟨package, led⟩ := Interpreter.led_new files environment objects
  have readied := Interpreter.readies_new files environment objects
  have lacks := readied.lacks (Interpreter.started_lacks files environment objects "string")
  have known : (Machine.new files environment objects).globals.index <
      (Machine.new files environment objects).tables.size := by
    rw [readied.globals]
    exact Nat.lt_of_lt_of_le Nat.two_pos readied.tables
  generalize Machine.new files environment objects = s at led readied lacks known ⊢
  obtain ⟨t, run, globals, size, same⟩ := Dialect.runOn_resolverFor (s := { s with handles })
    modules (lacks.of_tables rfl) led.packaged.globals led.cached
  obtain ⟨equipped, -⟩ := Dialect.equipped_resolverFor (s := { s with handles })
    (lacks.of_tables rfl) known run
  obtain ⟨loaded, there⟩ := equipped.resolver
  refine ⟨_, t, run, same.trans readied.objects, ⟨?_, equipped.lacks.metatables _⟩,
    equipped.require, _, there, ?_⟩
  · rw [globals, size]
    exact known
  · exact congrArg₂ (ModuleIndex.ofSettings modules) readied.files readied.environment

/-- A run on a new interpreter starts well if its settings are valid. -/
theorem runOn_start {settings : Settings} (valid : settings.validate = .ok ()) (host : Host)
    (files : Files) (environment : Variables) (objects : Objects) :
    ∃ r t, (start settings host).runOn (.new files environment objects) =
        (.ok ⟨settings, host, r⟩, t) ∧
      t.objects = objects ∧
      Readied ⟨settings, host, r⟩ (.ofSettings settings.modules files environment) t := by
  have checked (s : Machine) : (Execution.valid settings).runOn s = (.ok (), s) := by
    rw [Execution.valid, valid]
    rfl
  have enables (s : Machine) : (Crossing.enable : RunM Unit).runOn s =
      (.ok (), { s with handles := some (s.handles.getD .empty) }) := rfl
  obtain ⟨r, t, resolves, same, receptive, require, resolver, there, index⟩ :=
    runOn_resolverFor_new settings.modules files environment objects
      (some ((Machine.new files environment objects).handles.getD .empty))
  obtain ⟨resolvers, bridges, other, last, still⟩ :=
    Resolver.runOn_installBridge (ε := RunError) r settings.modules settings.bridge there
  let execution : Execution := ⟨settings, host, r⟩
  obtain ⟨u, functions, brings, kept, print, log⟩ :=
    runOn_publishFunctions (s := { t with resolvers }) execution.publisher
      ⟨receptive.known, receptive.plain⟩
  refine ⟨r, u, ?_, kept.trans same, brings.receptive ⟨receptive.known, receptive.plain⟩, print,
    log, Offers.brings (s := { t with resolvers }) require brings (by decide), other, ?_,
    still.trans index⟩
  · rw [start, runOn_bind_ok (checked _), runOn_bind_ok (enables _),
      runOn_bind_ok (runOn_mapError_ok resolves), runOn_bind_ok bridges]
    exact runOn_bind_ok (runOn_mapError_ok functions) _
  · rw [brings.resolvers]
    exact last

/--
Valid settings let every run start on a new interpreter and be given any client.  Its script then
finds `print`, `log` and `require` as the run installed them, proxies of the client and of the
context under `client` and `ctx`, and under the name of each namespace a table with one entry for
each name that is registered in its package, and no others.  Settings are valid only if all these
names differ, and if those of namespaces are letters and digits that start with a letter.
-/
theorem globals_kept_apart (settings : Settings) (classes : List HostClass) (entries : List Entry)
    (plain : ∀ e ∈ entries, e.Plain) (files : Files) (environment : Variables) (objects : Objects)
    (context : ExecContext) (client : ObjectId) :
    let host : Host := ⟨classes, (Registrations.registerAll {} entries).toRegistry⟩
    let index : ModuleIndex := .ofSettings settings.modules files environment
    (settings.validate = .ok () → ∃ r s t,
      (start settings host).runOn (.new files environment objects) = (.ok ⟨settings, host, r⟩, s) ∧
      (introduce ⟨settings, host, r⟩ context (.ptr (some client))).runOn s = (.ok (), t) ∧
      (∀ x ∈ ["print", "log", "require"], t.held t.globals x = s.held s.globals x) ∧
      Introduced ⟨settings, host, r⟩ index entries context client (objects.get client).shape t) ∧
    ∀ b : BindingSettings, b.validate = .ok () ↔
      (∀ ns ∈ b.namespaces, Identifier ns.name) ∧
        (["print", "log", "require", "client", "ctx"] ++ b.namespaces.map (·.name)).Nodup := by
  intro host index
  refine ⟨fun valid => ?_, BindingSettings.validate_iff⟩
  obtain ⟨r, s, starts, rfl, readied⟩ := runOn_start valid host files environment objects
  obtain ⟨-, distinct⟩ := (BindingSettings.validate_iff _).1 (Settings.validate_binding valid)
  obtain ⟨t, introduces, same, introduced⟩ :=
    runOn_introduce readied plain rfl distinct context client
  exact ⟨r, s, t, starts, introduces, same, introduced⟩

/-- Settings with one namespace. -/
def spaced (name package : String) : Settings := { binding := { namespaces := [⟨name, package⟩] } }

theorem globals_kept_apart_shop :
    (∃ r s t, (start (spaced "shop" "store") ⟨[Store.hostClass], (Registrations.registerAll {}
          [.function Publisher.counting, .type Store.hostClass]).toRegistry⟩).runOn (.new {} []) =
        (.ok r, s) ∧
      (r.introduce {} (.ptr (some ⟨0⟩))).runOn s = (.ok (), t) ∧
      t.Offers t.globals "log" .logger ∧
      ∃ id, t.held t.globals "shop" = .table id ∧
        ((t.pairsOf id).map (·.1)).Perm [.text "Len", .text "Store"]) ∧
    (spaced "log" "store").binding.validate ≠ .ok () := by
  obtain ⟨apart, accepts⟩ := globals_kept_apart (spaced "shop" "store") [Store.hostClass]
    [.function Publisher.counting, .type Store.hostClass] (by decide) {} [] {} {} ⟨0⟩
  obtain ⟨r, s, t, starts, introduces, -, introduced⟩ := apart rfl
  obtain ⟨id, there, holds⟩ := introduced.namespaces ⟨"shop", "store"⟩ List.mem_cons_self
  refine ⟨⟨_, s, t, starts, introduces, introduced.log, id, there, holds.keys⟩, ?_⟩
  intro valid
  exact absurd ((accepts _).1 valid).2 (by decide)

end Execution

end ScriptHost
