import ScriptHost.Dialect
import ScriptHost.Proofs.Collections

/-!
# Modules that leave the cache

A module is removed from the cache in use.  That is the cache of the installed resolver, or else the
table to which the globals lead.  A lookup on the way there may find nothing, or a caught panic,
which then goes on.
-/

namespace ScriptHost

open MachineM

namespace Dialect

open Machine

theorem forget_interpreted (name : String) : Interpreted call (forget name) := by
  refine Interpreted.get.bind fun s => ?_
  split
  · exact (Resolver.forget_interpreted _ _).mapError _
  · refine (ScriptM.globalFor_interpreted _).bind fun package => ?_
    split
    · exact .pure ()
    · exact (Published.expectTable_interpreted _).bind fun _ =>
        (ScriptM.indexFor_interpreted _ _).bind fun _ =>
          (Published.expectTable_interpreted _).bind fun _ => .rawSet _ _ _

theorem evict_interpreted (name : String) : Interpreted call (evict name) :=
  (forget_interpreted name).attempt.discard

/-! ## The way to the cache -/

/-- The cache that modules are forgotten from. -/
inductive InUse (s : Machine) (loaded : TableId) : Prop where
  | resolver {r : Nat} (installed : s.installed = some r) (cache : s.cacheOf r = some loaded)
  | package {package : TableId} (installed : s.installed = none)
      (packaged : s.held s.globals "package" = .table package)
      (cached : s.held package "loaded" = .table loaded)

/--
The cache is found, or found missing, without a metatable, and holds none of the tables that it is
found through.
-/
inductive Direct (s : Machine) : Prop where
  | resolver {r : Nat} {loaded : TableId} (installed : s.installed = some r)
      (cache : s.cacheOf r = some loaded)
  | package (installed : s.installed = none) (packaged : s.Unaided s.globals "package")
      (cached : ∀ package, s.held s.globals "package" = .table package → s.Unaided package "loaded")
      (apart : ∀ package loaded, s.held s.globals "package" = .table package →
        s.held package "loaded" = .table loaded → loaded ≠ s.globals ∧ loaded ≠ package)

/-- A caught panic stands on the way to the cache, and goes on when the host gets it. -/
inductive Alarm (s : Machine) (text : String) : Prop where
  | package (installed : s.installed = none) (raises : s.Raises (s.held s.globals "package") text)
  | loaded {package : TableId} (installed : s.installed = none)
      (packaged : s.held s.globals "package" = .table package)
      (raises : s.Raises (s.held package "loaded") text)

section

variable {s t : Machine} {loaded other : TableId} {name text : String}

theorem InUse.unique (first : InUse s loaded) (second : InUse s other) : loaded = other := by
  cases first with
  | resolver installed cache =>
    cases second with
    | resolver also found =>
      cases installed.symm.trans also
      exact Option.some.inj (cache.symm.trans found)
    | package also _ _ => cases installed.symm.trans also
  | package installed packaged cached =>
    cases second with
    | resolver also _ => cases installed.symm.trans also
    | package _ also found =>
      cases packaged.symm.trans also
      exact Value.table.inj (cached.symm.trans found)

/-- What an installation, the table of globals and two entries decide stays with these. -/
theorem InUse.congr (keeps : s.Keeps t)
    (packaged : t.held s.globals "package" = s.held s.globals "package")
    (cached : ∀ package, s.held s.globals "package" = .table package →
      t.held package "loaded" = s.held package "loaded") (inUse : InUse s loaded) :
    InUse t loaded := by
  cases inUse with
  | resolver installed cache =>
    exact .resolver (keeps.installed.trans installed) ((keeps.caches _).trans cache)
  | package installed found there =>
    exact .package (keeps.installed.trans installed) (keeps.globals ▸ packaged.trans found)
      ((cached _ found).trans there)

theorem Direct.congr (keeps : s.Keeps t)
    (packaged : t.held s.globals "package" = s.held s.globals "package")
    (cached : ∀ package, s.held s.globals "package" = .table package →
      t.held package "loaded" = s.held package "loaded")
    (metatables : s.KeepsMetatables t) (direct : Direct s) : Direct t := by
  cases direct with
  | resolver installed cache =>
    exact .resolver (keeps.installed.trans installed) ((keeps.caches _).trans cache)
  | package installed plain inner apart =>
    rw [← keeps.globals] at packaged
    refine .package (keeps.installed.trans installed) (fun absent => ?_)
      (fun package found absent => ?_) fun package loaded found there => ?_
    · rw [metatables t.globals, keeps.globals]
      rw [keeps.globals] at absent packaged
      exact plain (packaged.symm.trans absent)
    · rw [keeps.globals] at found packaged
      have first := packaged.symm.trans found
      rw [metatables package]
      exact inner package first ((cached package first).symm.trans absent)
    · rw [keeps.globals] at found packaged ⊢
      have first := packaged.symm.trans found
      exact apart package loaded first ((cached package first).symm.trans there)

theorem InUse.of_loses (keeps : s.Keeps t) (loses : s.Loses t) (inUse : InUse t loaded) :
    InUse s loaded := by
  have stays {id other : TableId} {x : String} (found : t.held id x = .table other) :
      s.held id x = .table other := by
    rcases loses id x with same | lost
    · exact same.symm.trans found
    · cases found.symm.trans lost
  cases inUse with
  | resolver installed cache =>
    exact .resolver (keeps.installed.symm.trans installed) ((keeps.caches _).symm.trans cache)
  | package installed packaged cached =>
    exact .package (keeps.installed.symm.trans installed) (stays (keeps.globals ▸ packaged))
      (stays cached)

theorem inUse_resembles (same : s.Resembles t) : InUse t loaded ↔ InUse s loaded :=
  ⟨.congr same.toKeeps.symm (same.held _ _).symm fun _ _ => (same.held _ _).symm,
    .congr same.toKeeps (same.held _ _) fun _ _ => same.held _ _⟩

theorem Direct.resembles (same : s.Resembles t) (direct : Direct s) : Direct t :=
  direct.congr same.toKeeps (same.held _ _) (fun _ _ => same.held _ _) same.metatables

/-- Where a panic goes on, no cache is in use. -/
theorem Alarm.nowhere (alarm : Alarm s text) : ¬ InUse s loaded := by
  intro inUse
  cases inUse with
  | resolver installed _ =>
    cases alarm with
    | package none_ _ | loaded none_ _ _ => cases none_.symm.trans installed
  | package _ packaged cached =>
    cases alarm with
    | package _ raises =>
      obtain ⟨_, same, -⟩ := raises
      cases packaged.symm.trans same
    | loaded _ also raises =>
      cases packaged.symm.trans also
      obtain ⟨_, same, -⟩ := raises
      cases cached.symm.trans same

/-- A panic is found without a metatable. -/
theorem Alarm.direct (alarm : Alarm s text) : Direct s := by
  cases alarm with
  | package installed raises =>
    obtain ⟨index, found, -⟩ := raises
    refine .package installed (fun absent => ?_) (fun package also => ?_) fun package _ also => ?_
    · cases found.symm.trans absent
    · cases found.symm.trans also
    · cases found.symm.trans also
  | @loaded package installed packaged raises =>
    obtain ⟨index, found, -⟩ := raises
    refine .package installed (fun absent => ?_) (fun other also absent => ?_)
      fun other loaded also there => ?_
    · cases packaged.symm.trans absent
    · cases packaged.symm.trans also
      cases found.symm.trans absent
    · cases packaged.symm.trans also
      cases found.symm.trans there

/-- The loss of entries brings no panic up. -/
theorem Alarm.of_loses (keeps : s.Keeps t) (loses : s.Loses t)
    (raises : ∀ v text, t.Raises v text → s.Raises v text) (alarm : Alarm t text) :
    Alarm s text := by
  have stays {id : TableId} {x : String} (raised : t.Raises (t.held id x) text) :
      s.Raises (s.held id x) text := by
    rcases loses id x with same | lost
    · exact raises _ _ (same ▸ raised)
    · obtain ⟨_, same, -⟩ := raised
      cases same.symm.trans lost
  cases alarm with
  | package installed raised =>
    exact .package (keeps.installed.symm.trans installed) (stays (keeps.globals ▸ raised))
  | loaded installed packaged raised =>
    rw [keeps.globals] at packaged
    refine .loaded (keeps.installed.symm.trans installed) ?_ (stays raised)
    rcases loses s.globals "package" with same | lost
    · exact same.symm.trans packaged
    · cases packaged.symm.trans lost

theorem Alarm.congr (keeps : s.Keeps t)
    (packaged : t.held s.globals "package" = s.held s.globals "package")
    (cached : ∀ package, s.held s.globals "package" = .table package →
      t.held package "loaded" = s.held package "loaded")
    (raises : ∀ v text, s.Raises v text → t.Raises v text) (alarm : Alarm s text) :
    Alarm t text := by
  cases alarm with
  | package installed raised =>
    refine .package (keeps.installed.trans installed) ?_
    rw [keeps.globals, packaged]
    exact raises _ _ raised
  | loaded installed found raised =>
    refine .loaded (keeps.installed.trans installed) (keeps.globals ▸ packaged.trans found) ?_
    rw [cached _ found]
    exact raises _ _ raised

/-- Forgetting a module leaves the way to the cache as it is. -/
theorem Direct.entering (direct : Direct s) (inUse : InUse s loaded) (name : String) :
    Direct (s.entering loaded name .nil) ∧ InUse (s.entering loaded name .nil) loaded := by
  have keeps := entering_keeps s loaded name .nil
  have metatables := entering_keepsMetatables s loaded name .nil
  cases direct with
  | resolver installed cache =>
    have same : InUse s _ := .resolver installed cache
    rw [← same.unique inUse]
    exact ⟨.resolver installed cache, .resolver installed cache⟩
  | package installed plain inner apart =>
    cases inUse with
    | resolver also _ => cases installed.symm.trans also
    | @package package _ found there =>
      obtain ⟨notGlobals, notPackage⟩ := apart package loaded found there
      have packaged : (s.entering loaded name .nil).held s.globals "package" =
          s.held s.globals "package" := by
        rw [held_entering_nil, if_neg fun both => notGlobals both.1.symm]
      have cached (other : TableId) (also : s.held s.globals "package" = .table other) :
          (s.entering loaded name .nil).held other "loaded" = s.held other "loaded" := by
        rw [held_entering_nil, if_neg]
        rintro ⟨rfl, -⟩
        exact notPackage (Value.table.inj (also.symm.trans found))
      exact ⟨.congr keeps packaged cached metatables (.package installed plain inner apart),
        .congr keeps packaged cached (.package installed found there)⟩

/-! ## One module -/

/-- A module is removed from the cache in use. -/
theorem runOn_forget_inUse (inUse : InUse s loaded) (name : String) :
    ∃ t, s.Resembles t ∧ (forget name).runOn s = (.ok (), t.entering loaded name .nil) := by
  cases inUse with
  | @resolver r installed cache =>
    have forgets : (Resolver.forget call r name).runOn s =
        (.ok (), s.entering loaded name .nil) := by
      rw [Resolver.forget, runOn_bind_ok (Resolver.runOn_cache_of_cacheOf cache)]
      rfl
    refine ⟨s, .refl s, ?_⟩
    rw [forget, runOn_bind_ok (runOn_get s), installed]
    exact runOn_mapError_ok forgets
  | @package package installed packaged cached =>
    have same := Resembles.searched s s.globals "package"
    have found : (ScriptM.globalFor call "package").runOn s = _ :=
      ScriptM.runOn_globalFor_held packaged nofun nofun
    have there : (ScriptM.indexFor call (.table package) (.text "loaded")).runOn
        (s.searched s.globals "package") = _ :=
      ScriptM.runOn_indexFor ((same.held _ _).trans cached) nofun nofun
    refine ⟨_, same.trans (.searched _ package "loaded"), ?_⟩
    rw [forget, runOn_bind_ok (runOn_get s), installed]
    dsimp only
    rw [runOn_bind_ok found]
    dsimp only
    rw [runOn_bind_ok (ScriptM.runOn_expectTable package _), runOn_bind_ok there,
      runOn_bind_ok (ScriptM.runOn_expectTable loaded _), runOn_rawSet]
    rfl

/-- A panic on the way to the cache goes on, and no module is removed. -/
theorem runOn_forget_alarm (alarm : Alarm s text) (name : String) :
    ∃ t, s.Resembles t ∧ (forget name).runOn s = (.error (.panic text), t) := by
  cases alarm with
  | package installed raises =>
    obtain ⟨t, same, run⟩ := ScriptM.runOn_indexFor_raised call raises
    rw [← ScriptM.runOn_globalFor] at run
    refine ⟨t, same, ?_⟩
    rw [forget, runOn_bind_ok (runOn_get s), installed]
    exact runOn_bind_stop run _
  | @loaded package installed packaged raises =>
    have same := Resembles.searched s s.globals "package"
    have found : (ScriptM.globalFor call "package").runOn s = _ :=
      ScriptM.runOn_globalFor_held packaged nofun nofun
    have still : (s.searched s.globals "package").Raises
        ((s.searched s.globals "package").held package "loaded") text := by
      rwa [held_searched, raises_searched]
    obtain ⟨t, again, run⟩ := ScriptM.runOn_indexFor_raised call still
    refine ⟨t, same.trans again, ?_⟩
    rw [forget, runOn_bind_ok (runOn_get s), installed]
    dsimp only
    rw [runOn_bind_ok found]
    dsimp only
    rw [runOn_bind_ok (ScriptM.runOn_expectTable package _), runOn_bind_stop run]

/-- Where no cache is in use, nothing is removed, and all that may happen is an error. -/
theorem runOn_forget_nowhere (direct : Direct s) (nowhere : ∀ loaded, ¬ InUse s loaded)
    (calm : ∀ text, ¬ Alarm s text) (name : String) :
    ∃ t, s.Resembles t ∧ ((forget name).runOn s = (.ok (), t) ∨
      ∃ e, (forget name).runOn s = (.error (.error e), t)) := by
  cases direct with
  | resolver installed cache => exact absurd (.resolver installed cache) (nowhere _)
  | package installed plain inner _ =>
    rw [forget, runOn_bind_ok (runOn_get s), installed]
    dsimp only
    obtain ⟨first, received⟩ := ScriptM.indexFor_received call plain
    rw [← ScriptM.runOn_globalFor] at first received
    rcases run : (ScriptM.globalFor call "package").runOn s with ⟨result, t⟩
    rw [run] at first received
    cases received with
    | raised raises => exact absurd (.package installed raises) (calm _)
    | @value v quiet table =>
      rw [runOn_bind_ok run]
      by_cases packaged : ∃ package, v = .table package
      · obtain ⟨package, rfl⟩ := packaged
        have packaged := table package rfl
        dsimp only
        rw [runOn_bind_ok (ScriptM.runOn_expectTable package t)]
        obtain ⟨second, received⟩ :=
          ScriptM.indexFor_received call (first.unaided (inner package packaged))
        rcases run' : (ScriptM.indexFor call (.table package) (.text "loaded")).runOn t with
          ⟨result', u⟩
        rw [run'] at second received
        cases received with
        | raised raises =>
          rw [first.held] at raises
          exact absurd (.loaded installed packaged (first.raises _ _ raises)) (calm _)
        | @value w quiet' table' =>
          have noTable (loaded : TableId) : w ≠ .table loaded := fun same =>
            nowhere loaded (.package installed packaged
              ((first.held _ _).symm.trans (table' loaded same)))
          obtain ⟨e, refused⟩ := ScriptM.expectTable_refused noTable u
          exact ⟨u, first.trans second, .inr ⟨e, by
            rw [runOn_bind_ok run', runOn_bind_stop refused]⟩⟩
      · have noTable (package : TableId) : v ≠ .table package := fun same =>
          packaged ⟨package, same⟩
        refine ⟨t, first, ?_⟩
        split
        · exact .inl rfl
        · obtain ⟨e, refused⟩ := ScriptM.expectTable_refused noTable t
          exact .inr ⟨e, runOn_bind_stop refused _⟩

/-- What becomes of a machine that evicts a module. -/
inductive Evicts (name : String) (s : Machine) : Except (Stop Empty) Unit × Machine → Prop where
  | removed {t : Machine} {loaded : TableId} (inUse : InUse s loaded) (same : s.Resembles t) :
      Evicts name s (.ok (), t.entering loaded name .nil)
  | passedOver {t : Machine} (nowhere : ∀ loaded, ¬ InUse s loaded) (same : s.Resembles t) :
      Evicts name s (.ok (), t)
  | alarmed {t : Machine} {text : String} (alarm : Alarm s text) (same : s.Resembles t) :
      Evicts name s (.error (.panic text), t)

theorem runOn_evict (name : String) (s : Machine) : (evict name).runOn s =
    match (forget name).runOn s with
    | (.error (.panic text), t) => (.error (.panic text), t)
    | (.error .endless, t) => (.error .endless, t)
    | (_, t) => (.ok (), t) := by
  have mapped : evict name = (fun _ => ()) <$> attempt (forget name) := rfl
  rw [mapped, runOn_map, runOn_attempt]
  rcases (forget name).runOn s with ⟨(_ | _ | _) | _, t⟩ <;> rfl

theorem evicts (direct : Direct s) (name : String) : Evicts name s ((evict name).runOn s) := by
  rw [runOn_evict]
  by_cases inUse : ∃ loaded, InUse s loaded
  · obtain ⟨loaded, inUse⟩ := inUse
    obtain ⟨t, same, run⟩ := runOn_forget_inUse inUse name
    rw [run]
    exact .removed inUse same
  · have nowhere (loaded : TableId) : ¬ InUse s loaded := fun also => inUse ⟨loaded, also⟩
    by_cases alarm : ∃ text, Alarm s text
    · obtain ⟨text, alarm⟩ := alarm
      obtain ⟨t, same, run⟩ := runOn_forget_alarm alarm name
      rw [run]
      exact .alarmed alarm same
    · obtain ⟨t, same, run | ⟨e, run⟩⟩ := runOn_forget_nowhere direct nowhere
        (fun text also => alarm ⟨text, also⟩) name <;> rw [run]
      · exact .passedOver nowhere same
      · exact .passedOver nowhere same

/-! ## All modules -/

/-- A machine that lost entries of the cache in use, under some names, and has changed no other. -/
structure Fades (names : List String) (s t : Machine) : Prop extends s.Keeps t where
  held : ∀ id x, t.held id x = s.held id x ∨ InUse s id ∧ x ∈ names ∧ t.held id x = .nil
  metatables : s.KeepsMetatables t
  raises : ∀ v text, t.Raises v text → s.Raises v text
  direct : Direct t
  inUse : ∀ loaded, InUse t loaded ↔ InUse s loaded

namespace Fades

variable {u : Machine} {names more : List String}

theorem loses (fades : Fades names s t) : s.Loses t :=
  fun id x => (fades.held id x).imp_right fun lost => lost.2.2

theorem of_resembles (direct : Direct s) (same : s.Resembles t) : Fades names s t :=
  ⟨same.toKeeps, fun id x => .inl (same.held id x), same.metatables, same.raises,
    direct.resembles same, fun _ => inUse_resembles same⟩

theorem mono (fades : Fades names s t) (fewer : names ⊆ more) : Fades more s t :=
  { fades with held := fun id x =>
      (fades.held id x).imp_right fun lost => ⟨lost.1, fewer lost.2.1, lost.2.2⟩ }

theorem trans (first : Fades names s t) (second : Fades names t u) : Fades names s u := by
  refine ⟨first.toKeeps.trans second.toKeeps, fun id x => ?_,
    first.metatables.trans second.metatables,
    fun v text raises => first.raises v text (second.raises v text raises), second.direct,
    fun loaded => (second.inUse loaded).trans (first.inUse loaded)⟩
  rcases second.held id x with same | ⟨inUse, among, lost⟩
  · rcases first.held id x with before | ⟨inUse, among, lost⟩
    · exact .inl (same.trans before)
    · exact .inr ⟨inUse, among, same.trans lost⟩
  · exact .inr ⟨(first.inUse id).1 inUse, among, lost⟩

/-- No panic comes up when entries are lost. -/
theorem calm (fades : Fades names s t) (calm : ∀ text, ¬ Alarm s text) (text : String) :
    ¬ Alarm t text := fun alarm => calm text (alarm.of_loses fades.toKeeps fades.loses fades.raises)

end Fades

/-- What becomes of a machine that evicts modules with these names. -/
structure Evicted (names : List String) (s : Machine) (c : Except (Stop Empty) Unit × Machine) :
    Prop extends Fades names s c.2 where
  gone : ∀ loaded, InUse s loaded → ∀ name ∈ names, c.2.held loaded name = .nil
  passes : (∀ text, ¬ Alarm s text) → c.1 = .ok ()

theorem evicted_one (direct : Direct s) (name : String) :
    Evicted [name] s ((evict name).runOn s) := by
  have evicted := evicts direct name
  generalize (evict name).runOn s = outcome at evicted ⊢
  cases evicted with
  | @removed t cache inUse same =>
    obtain ⟨stillDirect, stillInUse⟩ :=
      (direct.resembles same).entering ((inUse_resembles same).2 inUse) name
    have lost : (t.entering cache name .nil).held cache name = .nil := by
      rw [held_entering_nil, if_pos ⟨rfl, rfl⟩]
    refine ⟨⟨same.toKeeps.trans (entering_keeps t cache name .nil), fun id x => ?_,
      same.metatables.trans (entering_keepsMetatables t cache name .nil), same.raises, stillDirect,
      fun loaded => ⟨fun also => stillInUse.unique also ▸ inUse,
        fun also => inUse.unique also ▸ stillInUse⟩⟩, fun loaded also other among => ?_,
      fun _ => rfl⟩
    · by_cases here : id = cache ∧ x = name
      · obtain ⟨rfl, rfl⟩ := here
        exact .inr ⟨inUse, List.mem_singleton.2 rfl, lost⟩
      · rw [held_entering_nil, if_neg here]
        exact .inl (same.held id x)
    · rw [List.mem_singleton.1 among, ← inUse.unique also]
      exact lost
  | passedOver nowhere same =>
    exact ⟨.of_resembles direct same, fun loaded inUse => absurd inUse (nowhere loaded),
      fun _ => rfl⟩
  | alarmed alarm same =>
    exact ⟨.of_resembles direct same, fun loaded inUse => absurd inUse alarm.nowhere,
      fun calm => absurd alarm (calm _)⟩

/-- A panic ends the evictions, and comes up only where there is no cache to evict from. -/
theorem evicted_all (names : List String) (direct : Direct s) :
    Evicted names s ((names.forM evict).runOn s) := by
  induction names generalizing s with
  | nil => exact ⟨.of_resembles direct (.refl s), nofun, fun _ => rfl⟩
  | cons name rest ih =>
    have first := evicted_one direct name
    have head : [name] ⊆ name :: rest := List.cons_subset_cons _ (List.nil_subset _)
    rw [List.forM]
    rcases run : (evict name).runOn s with ⟨stop | done, t⟩ <;> rw [run] at first
    · have alarmed : ¬ ∀ text, ¬ Alarm s text := fun calm => nomatch first.passes calm
      rw [runOn_bind_stop run]
      exact ⟨first.mono head,
        fun loaded inUse => absurd (fun _ alarm => alarm.nowhere inUse) alarmed,
        fun calm => absurd calm alarmed⟩
    · have more := ih first.direct
      rw [runOn_bind_ok run]
      refine ⟨(first.mono head).trans (more.mono (List.subset_cons_self ..)),
        fun loaded inUse other among => ?_, fun calm => more.passes (first.calm calm)⟩
      rcases List.mem_cons.1 among with rfl | among
      · exact more.loses.absent (first.gone loaded inUse other (List.mem_singleton.2 rfl))
      · exact more.gone loaded ((first.inUse loaded).2 inUse) other among

/-- A caught panic on the way to the cache ends the evictions at once. -/
theorem runOn_evict_alarm (alarm : Alarm s text) (name : String) (rest : List String) :
    (((name :: rest).forM evict).runOn s).1 = .error (.panic text) := by
  obtain ⟨t, -, run⟩ := runOn_forget_alarm alarm name
  have raised : (evict name).runOn s = (.error (.panic text), t) := by
    rw [runOn_evict, run]
  rw [List.forM, runOn_bind_stop raised]

end

end Dialect

end ScriptHost
