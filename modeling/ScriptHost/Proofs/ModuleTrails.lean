import ScriptHost.Proofs.ModuleEntries

/-!
# Trails of a module

The trail of a run has every moment that matters for the entry of one module: each change that
scripts or the host make, each requirement of the module that loads nothing, and where its loader
starts and where the requirement that has started it ends.  What a moment of each kind can do to the
entry, and to the mark of the module, holds for all runs by induction on how they are put together.
-/

namespace ScriptHost

open MachineM

/-- The entry of a module in the cache of a resolver. -/
structure ModuleEntry extends Load where
  cache : TableId

inductive Event where
  /-- A script or the host changes the machine. -/
  | changed
  /-- The module is required, and its loader does not run. -/
  | looked
  /-- The loader of the module starts. -/
  | began
  /-- The requirement for which the loader ran ends. -/
  | ended
deriving DecidableEq

/-- An event with the machines before and after it. -/
structure Moment where
  event : Event
  before : Machine
  after : Machine

namespace Machine

/-- The machine that a run of moments leads to. -/
def reached (s : Machine) (log : List Moment) : Machine :=
  log.foldl (fun _ moment => moment.after) s

theorem reached_append (s : Machine) (first second : List Moment) :
    s.reached (first ++ second) = (s.reached first).reached second := List.foldl_append ..

end Machine

/-- What happens to an entry in a run of a computation, moment by moment. -/
inductive Trail (e : ModuleEntry) :
    {ε α : Type} → MachineM ε α → Machine → List Moment → Prop where
  | pure {ε α : Type} {s : Machine} (a : α) : Trail e (Pure.pure a : MachineM ε α) s []
  | throw {ε α : Type} {s : Machine} (stop : Stop ε) :
      Trail e (MonadExcept.throw stop : MachineM ε α) s []
  | get {ε : Type} {s : Machine} : Trail e (MonadState.get : MachineM ε Machine) s []
  | change {ε α : Type} {s : Machine} {f : Machine → α × Machine} (changes : s.Change (f s).2)
      (keeps : s.Keeps (f s).2) :
      Trail e (modifyGet f : MachineM ε α) s [⟨.changed, s, (f s).2⟩]
  | onObjects {ε α : Type} {s : Machine} (f : HostError → ε) (m : HostM α) :
      Trail e (MachineM.onObjects f m) s [⟨.changed, s, ((MachineM.onObjects f m).runOn s).2⟩]
  | bind {ε α β : Type} {s t : Machine} {m : MachineM ε α} {f : α → MachineM ε β} {a : α}
      {before after : List Moment} (first : Trail e m s before) (result : m.runOn s = (.ok a, t))
      (rest : Trail e (f a) t after) : Trail e (m >>= f) s (before ++ after)
  | stop {ε α β : Type} {s t : Machine} {m : MachineM ε α} {f : α → MachineM ε β} {stop : Stop ε}
      {log : List Moment} (first : Trail e m s log) (result : m.runOn s = (.error stop, t)) :
      Trail e (m >>= f) s log
  | attempt {ε ε' α : Type} {s : Machine} {m : MachineM ε α} {log : List Moment}
      (inner : Trail e m s log) : Trail e (MachineM.attempt m : MachineM ε' (Except ε α)) s log
  | mapError {ε ε' α : Type} {s : Machine} {m : MachineM ε α} {log : List Moment} (f : ε → ε')
      (inner : Trail e m s log) : Trail e (MachineM.mapError f m) s log
  | andThen {ε α : Type} {s : Machine} {m : MachineM ε α} {f : Machine → Machine}
      {log : List Moment} (inner : Trail e m s log) (changes : ∀ s : Machine, s.Change (f s))
      (keeps : ∀ s : Machine, s.Keeps (f s)) :
      Trail e (MachineM.andThen m (modify f)) s
        (log ++ [⟨.changed, (m.runOn s).2, f (m.runOn s).2⟩])
  | ofHost {α : Type} {s : Machine} {m : MachineM ScriptError α} {log : List Moment}
      (inner : Trail e m s log) :
      Trail e (ScriptM.ofHost m) s
        (log ++ [⟨.changed, (m.runOn s).2, ((ScriptM.ofHost m).runOn s).2⟩])
  /-- The module has an entry, or it is being loaded. -/
  | looks {call : Caller} {s : Machine}
      (either : s.held e.cache e.name ≠ .nil ∨ e.name ∈ s.marks e.resolver) :
      Trail e (Resolver.require call e.resolver e.name) s
        [⟨.looked, s, ((Resolver.require call e.resolver e.name).runOn s).2⟩]
  /-- The module has no entry and is not being loaded. -/
  | loads {call : Caller} {s t : Machine} {log : List Moment}
      (absent : s.held e.cache e.name = .nil) (free : e.name ∉ s.marks e.resolver)
      (starts : (s.searched e.cache e.name).mark e.toLoad = t)
      (inner : Trail e (Resolver.load call e.resolver e.name) t log) :
      Trail e (Resolver.require call e.resolver e.name) s
        (⟨.began, s, t⟩ :: log ++
          [⟨.ended, ((Resolver.load call e.resolver e.name).runOn t).2,
            ((Resolver.require call e.resolver e.name).runOn s).2⟩])
  /-- Another load that is refused. -/
  | refused {call : Caller} {s : Machine} (load : Load) (other : load ≠ e.toLoad)
      (marked : load.name ∈ s.marks load.resolver) :
      Trail e (Resolver.loadOnce call load.resolver load.name) s []
  /-- Another load, which marks its name and takes the mark away. -/
  | other {call : Caller} {s : Machine} {log : List Moment} (load : Load)
      (other : load ≠ e.toLoad) (free : load.name ∉ s.marks load.resolver)
      (inner : Trail e (Resolver.load call load.resolver load.name) (s.mark load) log) :
      Trail e (Resolver.loadOnce call load.resolver load.name) s
        (⟨.changed, s, s.mark load⟩ :: log ++
          [⟨.changed, ((Resolver.load call load.resolver load.name).runOn (s.mark load)).2,
            ((Resolver.loadOnce call load.resolver load.name).runOn s).2⟩])

namespace ModuleEntry

variable {e : ModuleEntry} {s t u : Machine}

def value (e : ModuleEntry) (s : Machine) : Value := s.held e.cache e.name

/-- The resolver keeps its entries in the cache, which is a table of the machine. -/
structure Kept (e : ModuleEntry) (s : Machine) : Prop where
  cache : s.cacheOf e.resolver = some e.cache
  known : e.cache.index < s.tables.size

/-- Whatever happens, the resolver keeps its cache. -/
structure Follows (e : ModuleEntry) (s t : Machine) : Prop extends s.Grows t where
  cache : t.cacheOf e.resolver = s.cacheOf e.resolver

theorem Kept.onward (kept : e.Kept s) (follows : e.Follows s t) : e.Kept t :=
  ⟨follows.cache.trans kept.cache, Nat.lt_of_lt_of_le kept.known follows.tables⟩

theorem Kept.resolver_known (kept : e.Kept s) : e.resolver < s.resolvers.size := by
  by_contra beyond
  have cache := kept.cache
  rw [Machine.cacheOf, Array.getElem?_eq_none (Nat.le_of_not_lt beyond)] at cache
  cases cache

namespace Follows

theorem refl (e : ModuleEntry) (s : Machine) : e.Follows s s := ⟨.refl s, rfl⟩

theorem trans (first : e.Follows s t) (second : e.Follows t u) : e.Follows s u :=
  ⟨first.toGrows.trans second.toGrows, second.cache.trans first.cache⟩

theorem ofOnward (e : ModuleEntry) (onward : s.Onward t) : e.Follows s t :=
  ⟨onward.toGrows, onward.caches e.resolver⟩

theorem searched (e : ModuleEntry) (s : Machine) (id : TableId) (name : String) :
    e.Follows s (s.searched id name) := by
  obtain ⟨tables, size, same⟩ := s.searched_eq id name
  rw [same]
  exact ⟨⟨Nat.le_of_eq size.symm, Nat.le_refl _, fun _ settled => settled⟩, rfl⟩

theorem mark (e : ModuleEntry) (s : Machine) (load : Load) : e.Follows s (s.mark load) :=
  .ofOnward e (.resolver s load.resolver fun _ => rfl)

theorem unmark (e : ModuleEntry) (s : Machine) (load : Load) : e.Follows s (s.unmark load) :=
  .ofOnward e (.resolver s load.resolver fun _ => rfl)

end Follows

/-! ## Steps -/

/-- What a moment can do to an entry and to the mark of its module. -/
inductive Step (e : ModuleEntry) : Moment → Prop where
  | changed {s t : Machine} (follows : e.Follows s t)
      (marks : e.name ∈ t.marks e.resolver ↔ e.name ∈ s.marks e.resolver) :
      Step e ⟨.changed, s, t⟩
  | looked {s t : Machine} (follows : e.Follows s t)
      (marks : e.name ∈ t.marks e.resolver ↔ e.name ∈ s.marks e.resolver)
      (same : e.value t = e.value s) : Step e ⟨.looked, s, t⟩
  | began {s t : Machine} (follows : e.Follows s t) (absent : e.value s = .nil)
      (free : e.name ∉ s.marks e.resolver) (marked : e.name ∈ t.marks e.resolver) :
      Step e ⟨.began, s, t⟩
  | ended {s t : Machine} (follows : e.Follows s t) : Step e ⟨.ended, s, t⟩

theorem Step.follows {moment : Moment} (step : e.Step moment) :
    e.Follows moment.before moment.after := by
  cases step <;> assumption

theorem Step.ofChange (kept : e.Kept s) (change : s.Change t)
    (cache : t.cacheOf e.resolver = s.cacheOf e.resolver) : e.Step ⟨.changed, s, t⟩ :=
  .changed ⟨.ofChange change, cache⟩ (by rw [(change.marks kept.resolver_known).2])

/-- Moments of the run of an entry that follow one another. -/
inductive Path (e : ModuleEntry) : Machine → List Moment → Machine → Prop where
  | nil {s : Machine} : Path e s [] s
  | cons {t : Machine} {moment : Moment} {log : List Moment} (step : e.Step moment)
      (rest : Path e moment.after log t) : Path e moment.before (moment :: log) t

namespace Path

variable {log first second : List Moment}

theorem single {event : Event} (step : e.Step ⟨event, s, t⟩) : e.Path s [⟨event, s, t⟩] t :=
  .cons step .nil

theorem append (before : e.Path s first t) (after : e.Path t second u) :
    e.Path s (first ++ second) u := by
  induction before with
  | nil => exact after
  | cons step _ ih => exact .cons step (ih after)

theorem follows (path : e.Path s log t) : e.Follows s t := by
  induction path with
  | nil => exact .refl e _
  | cons step _ ih => exact step.follows.trans ih

theorem reached_eq (path : e.Path s log t) : s.reached log = t := by
  induction path with
  | nil => rfl
  | cons step _ ih => exact ih

/-- A path can be cut anywhere. -/
theorem split (path : e.Path s (first ++ second) t) :
    e.Path s first (s.reached first) ∧ e.Path (s.reached first) second t := by
  induction first generalizing s with
  | nil => exact ⟨.nil, path⟩
  | cons moment rest ih =>
    cases path with
    | cons step path =>
      obtain ⟨before, after⟩ := ih path
      exact ⟨.cons step before, after⟩

end Path

/-! ## Requirements of the module -/

section

variable {call : Caller} {α : Type}

/-- A requirement without a load changes nothing but failures and how a table is searched. -/
theorem require_looks (call : Caller) (kept : e.Kept s)
    (either : e.value s ≠ .nil ∨ e.name ∈ s.marks e.resolver) :
    e.Follows s ((Resolver.require call e.resolver e.name).runOn s).2 ∧
      ∃ faults, ((Resolver.require call e.resolver e.name).runOn s).2 =
        { s.searched e.cache e.name with faults } := by
  by_cases absent : e.value s = .nil
  · have marked : e.name ∈ (s.searched e.cache e.name).marks e.resolver := by
      rw [Machine.marks, Machine.resolvers_searched]
      exact either.resolve_left fun present => present absent
    rw [Resolver.require_missed kept.cache absent,
      runOn_bind_stop (Resolver.loadOnce_marked e.toLoad marked)]
    exact ⟨.searched e s _ _, _, rfl⟩
  · rw [Resolver.require_found kept.cache absent]
    have receives := (ScriptM.receive_interpreted (ε := ModuleError) (e.value s)).confined_alone
    exact ⟨(Follows.searched e s _ _).trans (.ofOnward e (receives _)),
      ScriptM.receive_faults _ _⟩

theorem looks_step (kept : e.Kept s)
    (either : e.value s ≠ .nil ∨ e.name ∈ s.marks e.resolver) :
    e.Step ⟨.looked, s, ((Resolver.require call e.resolver e.name).runOn s).2⟩ := by
  obtain ⟨follows, faults, same⟩ := require_looks call kept either
  refine .looked follows ?_ ?_
  · rw [same, Machine.marks]
    exact iff_of_eq (congrArg (fun resolvers : Array Resolver =>
      e.name ∈ (resolvers[e.resolver]?.getD default).loading) (Machine.resolvers_searched s _ _))
  · rw [same]
    exact Machine.held_searched s e.cache e.name e.cache e.name

/-- The loader of a module starts where the module has no entry and is not being loaded. -/
theorem loads_step (kept : e.Kept s) (absent : e.value s = .nil)
    (free : e.name ∉ s.marks e.resolver) :
    e.Step ⟨.began, s, (s.searched e.cache e.name).mark e.toLoad⟩ := by
  have searched := Follows.searched e s e.cache e.name
  refine .began (searched.trans (.mark e _ _)) absent free ?_
  rw [Machine.marks_mark_self (kept.onward searched).resolver_known]
  exact List.mem_cons_self

theorem enterValue_follows (e : ModuleEntry) (loaded : TableId) (name : String) (v : Value)
    (s : Machine) : e.Follows s ((Resolver.enterValue loaded name v).runOn s).2 := by
  have interpreted : Interpreted noCalls (Resolver.enterValue loaded name v) :=
    .ite ((ScriptM.send_interpreted _).bind fun _ => (Interpreted.rawSet _ _ _).bind fun _ =>
      .pure _) <| (Resolver.cached_interpreted _ _).bind fun _ =>
        .ite (.pure _) <| (Interpreted.rawSet _ _ _).bind fun _ => .pure _
  exact .ofOnward e (interpreted.confined_alone s)

theorem settle_follows (e : ModuleEntry) (load : Load)
    (outcome : Except (Stop ModuleError) Value × Machine) :
    e.Follows outcome.2 (load.settle outcome).2 := by
  rcases outcome with ⟨(_ | _ | _) | _, t⟩
  · exact .unmark e t load
  · exact .refl e t
  · exact .refl e t
  · exact .unmark e t load

/-- The requirement of a module ends after its loader, with whatever is entered then. -/
theorem ends_step (kept : e.Kept s) (absent : e.value s = .nil)
    (free : e.name ∉ s.marks e.resolver) :
    e.Step ⟨.ended, ((Resolver.load call e.resolver e.name).runOn
      ((s.searched e.cache e.name).mark e.toLoad)).2,
        ((Resolver.require call e.resolver e.name).runOn s).2⟩ := by
  have unmarked : e.toLoad.name ∉ (s.searched e.cache e.name).marks e.toLoad.resolver := by
    rw [Machine.marks, Machine.resolvers_searched]
    exact free
  refine .ended (.trans (settle_follows e e.toLoad _) ?_)
  rw [← Resolver.loadOnce_free e.toLoad unmarked, Resolver.require_missed kept.cache absent,
    runOn_bind]
  rcases (Resolver.loadOnce call e.resolver e.name).runOn (s.searched e.cache e.name) with
    ⟨stop | v, t⟩
  · exact .refl e t
  · exact enterValue_follows e _ _ v t

/-! ## Other loads -/

variable {load : Load}

theorem name_ne_of_ne (own : load.resolver = e.resolver) (other : load ≠ e.toLoad) :
    e.name ≠ load.name := by
  intro same
  cases load
  cases own
  cases same
  exact other rfl

/-- A load of another module adds no mark for this one. -/
theorem mark_step (kept : e.Kept s) (other : load ≠ e.toLoad) :
    e.Step ⟨.changed, s, s.mark load⟩ := by
  refine .changed (.mark e s load) ?_
  by_cases own : load.resolver = e.resolver
  · rw [← own, Machine.marks_mark_self (own ▸ kept.resolver_known), List.mem_cons,
      or_iff_right (name_ne_of_ne own other)]
  · rw [Machine.marks_mark_other own]

theorem mem_marks_unmark (other : load ≠ e.toLoad) :
    e.name ∈ (s.unmark load).marks e.resolver ↔ e.name ∈ s.marks e.resolver := by
  by_cases own : load.resolver = e.resolver
  · rw [← own, Machine.marks_unmark_self, List.mem_erase_of_ne (name_ne_of_ne own other)]
  · rw [Machine.marks_unmark_other own]

/-- A load of another module leaves the mark of this one alone. -/
theorem settle_step (other : load ≠ e.toLoad)
    (outcome : Except (Stop ModuleError) Value × Machine) :
    e.Step ⟨.changed, outcome.2, (load.settle outcome).2⟩ := by
  refine .changed (settle_follows e load outcome) ?_
  rcases outcome with ⟨(_ | _ | _) | _, t⟩
  · exact mem_marks_unmark other
  · rfl
  · rfl
  · exact mem_marks_unmark other

end

end ModuleEntry

/-! ## Whole runs -/

section

open ModuleEntry

variable {e : ModuleEntry} {call : Caller} {ε α β : Type} {s : Machine}

/-- The trail of a run is a path to where the run ends. -/
theorem Trail.path {m : MachineM ε α} {log : List Moment} (trail : Trail e m s log)
    (kept : e.Kept s) : e.Path s log (m.runOn s).2 := by
  induction trail with
  | pure _ | throw _ | get => exact .nil
  | change changes keeps => exact .single (.ofChange kept changes (keeps.caches _))
  | @onObjects _ _ s f m =>
    have change : s.Change ((MachineM.onObjects f m).runOn s).2 := by
      rw [runOn_onObjects]
      exact .objects _
    refine .single (.ofChange kept change ?_)
    rw [runOn_onObjects]
    rfl
  | bind first result rest ihFirst ihRest =>
    have before := ihFirst kept
    rw [result] at before
    rw [runOn_bind_ok result]
    exact before.append (ihRest (kept.onward before.follows))
  | stop first result ih =>
    have before := ih kept
    rw [result] at before
    rw [runOn_bind_stop result]
    exact before
  | @attempt _ _ _ s m log inner ih =>
    have here := ih kept
    rw [runOn_attempt]
    generalize m.runOn s = outcome at here ⊢
    rcases outcome with ⟨(_ | _ | _) | _, t⟩ <;> exact here
  | mapError f inner ih =>
    rw [runOn_mapError]
    exact ih kept
  | andThen inner changes keeps ih =>
    have here := ih kept
    rw [runOn_andThen]
    exact here.append (.single (.ofChange (kept.onward here.follows) (changes _)
      ((keeps _).caches _)))
  | @ofHost _ s m log inner ih =>
    have here := ih kept
    refine here.append (.single (.ofChange (kept.onward here.follows)
      (Cuts.ofHost_change m s).1 ?_))
    rw [ScriptM.runOn_ofHost]
    rcases m.runOn s with ⟨(_ | _ | _) | _, t⟩ <;> rfl
  | looks either => exact .single (looks_step kept either)
  | loads absent free starts inner ih =>
    cases starts
    have begins := loads_step kept absent free
    have here := ih (kept.onward begins.follows)
    exact .cons begins (here.append (.single (ends_step kept absent free)))
  | refused load other marked =>
    rw [Resolver.loadOnce_marked load marked]
    exact .nil
  | other load other free inner ih =>
    have begins := mark_step kept other
    have here := ih (kept.onward begins.follows)
    refine .cons begins (here.append (.single ?_))
    rw [Resolver.loadOnce_free load free]
    exact settle_step other _

/-- A computation that has a trail wherever the resolver keeps its cache. -/
def Traced (e : ModuleEntry) (m : MachineM ε α) : Prop :=
  ∀ s : Machine, e.Kept s → ∃ log, Trail e m s log

namespace Traced

theorem pure (a : α) : Traced e (Pure.pure a : MachineM ε α) := fun _ _ => ⟨_, .pure a⟩

theorem bind {m : MachineM ε α} {f : α → MachineM ε β} (first : Traced e m)
    (rest : ∀ a, Traced e (f a)) : Traced e (m >>= f) := by
  intro s kept
  obtain ⟨before, here⟩ := first s kept
  rcases result : m.runOn s with ⟨stop | a, t⟩
  · exact ⟨_, .stop here result⟩
  · have path := here.path kept
    rw [result] at path
    obtain ⟨after, onward⟩ := rest a t (kept.onward path.follows)
    exact ⟨_, .bind here result onward⟩

theorem ite {c : Prop} [Decidable c] {m n : MachineM ε α} (first : Traced e m)
    (second : Traced e n) : Traced e (if c then m else n) := by
  split
  · exact first
  · exact second

theorem loadOnce {load : Load} (other : load ≠ e.toLoad)
    (loads : Traced e (Resolver.load call load.resolver load.name)) :
    Traced e (Resolver.loadOnce call load.resolver load.name) := by
  intro s kept
  by_cases marked : load.name ∈ s.marks load.resolver
  · exact ⟨_, .refused load other marked⟩
  · obtain ⟨log, inner⟩ := loads _ (kept.onward (.mark e s load))
    exact ⟨_, .other load other marked inner⟩

theorem require (loads : Traced e (Resolver.load call e.resolver e.name)) :
    Traced e (Resolver.require call e.resolver e.name) := by
  intro s kept
  by_cases either : e.value s ≠ .nil ∨ e.name ∈ s.marks e.resolver
  · exact ⟨_, .looks either⟩
  · obtain ⟨absent, free⟩ := not_or.1 either
    have absent := not_not.1 absent
    obtain ⟨log, inner⟩ := loads _ (kept.onward (loads_step kept absent free).follows)
    exact ⟨_, .loads absent free rfl inner⟩

end Traced

/-- Computations of scripts have trails, if their calls have. -/
theorem Interpreted.traced {m : MachineM ε α} (interpreted : Interpreted call m)
    (calls : ∀ site f args, Traced e (call site f args)) : Traced e m := by
  induction interpreted with
  | pure a => exact .pure a
  | throw stop => exact fun _ _ => ⟨_, .throw stop⟩
  | get => exact fun _ _ => ⟨_, .get⟩
  | change changes keeps => exact fun s _ => ⟨_, .change (changes s) (keeps s)⟩
  | onObjects f m => exact fun _ _ => ⟨_, .onObjects f m⟩
  | bind _ _ first rest => exact first.bind rest
  | attempt _ ih =>
    intro s kept
    obtain ⟨log, here⟩ := ih s kept
    exact ⟨_, .attempt here⟩
  | mapError f _ ih =>
    intro s kept
    obtain ⟨log, here⟩ := ih s kept
    exact ⟨_, .mapError f here⟩
  | andThen _ changes keeps ih =>
    intro s kept
    obtain ⟨log, here⟩ := ih s kept
    exact ⟨_, .andThen here changes keeps⟩
  | ofHost _ ih =>
    intro s kept
    obtain ⟨log, here⟩ := ih s kept
    exact ⟨_, .ofHost here⟩
  | call site f args => exact calls site f args
  | @require r name _ _ _ _ _ finds looks loads sends enters =>
    by_cases own : (⟨r, name⟩ : Load) = e.toLoad
    · obtain rfl : r = e.resolver := congrArg Load.resolver own
      obtain rfl : name = e.name := congrArg Load.name own
      exact loads.require
    · exact finds.bind fun loaded => (looks loaded).bind fun _ =>
        .ite (.pure _) <| (loads.loadOnce own).bind fun v => .ite
          ((sends v).bind fun _ => (enters _ _).bind fun _ => .pure _) <|
          (looks loaded).bind fun _ => .ite (.pure _) <| (enters _ _).bind fun _ => .pure _

theorem Calls.callAt_traced (depth : Nat) (site : CallSite) (f : Value) (args : List Value) :
    Traced e (callAt depth site f args) := by
  induction depth generalizing site f args with
  | zero =>
    have overflow : Interpreted noCalls (callAt 0 site f args) := ScriptM.raise_interpreted _
    exact overflow.traced fun _ _ _ _ _ => ⟨_, .throw _⟩
  | succ depth ih => exact (callAt_interpreted depth site f args).traced ih

end

end ScriptHost
