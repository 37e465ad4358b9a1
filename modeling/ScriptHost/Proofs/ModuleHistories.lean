import ScriptHost.Boundary.Collection
import ScriptHost.Proofs.ModuleAnswers
import ScriptHost.Proofs.ModuleCalls

/-!
# Histories of a module

A history has all moments that matter for the entry of a module, from computation to computation of
an interpreter.  Once a requirement has succeeded, the entry stays until somebody writes it or a
load that was running then ends, and all requirements find it: none of them starts the loader.
-/

namespace ScriptHost

open MachineM ScriptM Machine

/--
What becomes of an interpreter: scripts run, the host makes changes that leave the cache of the
resolver in place, and garbage is collected.
-/
inductive History (e : ModuleEntry) (s : Machine) : List Moment → Machine → Prop where
  | start : History e s [] s
  | run {ε α : Type} {t : Machine} {m : MachineM ε α} {log more : List Moment}
      (history : History e s log t) (interpreted : Interpreted call m)
      (trail : Trail e m t more) : History e s (log ++ more) (m.runOn t).2
  | host {t u : Machine} {log : List Moment} (history : History e s log t) (change : t.Change u)
      (cache : u.cacheOf e.resolver = t.cacheOf e.resolver) :
      History e s (log ++ [⟨.changed, t, u⟩]) u
  | collect {t : Machine} {log : List Moment} (history : History e s log t)
      (held : List Value) :
      History e s (log ++ [⟨.changed, t, t.collect held⟩]) (t.collect held)

/-- A resolver that was installed keeps the cache that the globals led to. -/
theorem Resolver.cacheOf_install {r : Nat} {s t : Machine} (known : r < s.resolvers.size)
    (installs : (Resolver.install call r).runOn s = (.ok (), t)) :
    ∃ loaded u, (Resolver.currentCache call).runOn s = (.ok loaded, u) ∧
      t.cacheOf r = some loaded := by
  obtain ⟨loaded, u, found, installs⟩ := runOn_bind_eq_ok.1 installs
  refine ⟨loaded, u, found, ?_⟩
  have onward := confined_of_interpreted Resolver.currentCache_interpreted s
  rw [found] at onward
  obtain ⟨_, x, changed, installs⟩ := runOn_bind_eq_ok.1 installs
  obtain ⟨f, y, made, installs⟩ := runOn_bind_eq_ok.1 installs
  obtain ⟨_, z, set, installs⟩ := runOn_bind_eq_ok.1 installs
  have kept : x.cacheOf r = some loaded := by
    have still : r < u.resolvers.size := Nat.lt_of_lt_of_le known onward.resolvers
    rw [show x = { u with resolvers := _ } from (congrArg Prod.snd changed).symm,
      Machine.cacheOf, Array.getElem?_modify, if_pos rfl, Array.getElem?_eq_getElem still]
    rfl
  have makes := confined_of_interpreted (Interpreted.newNative (ε := ModuleError) (.resolve r)) x
  have sets := confined_of_interpreted
    ((setGlobalFor_interpreted "require" f).mapError (ModuleError.load "require")) y
  rw [made] at makes
  rw [set] at sets
  rw [show t = { z with installed := some r } from (congrArg Prod.snd installs).symm]
  exact (sets.caches r).trans ((makes.caches r).trans kept)

namespace ModuleEntry

/-- Moments at which nobody writes an entry, and at which no load ends that began before them. -/
structure LeftAlone (e : ModuleEntry) (log : List Moment) : Prop where
  unwritten : ∀ moment ∈ log, moment.event = .changed →
    e.value moment.after = e.value moment.before
  unfinished : ∀ before moment after, log = before ++ moment :: after → moment.event = .ended →
    ∃ earlier ∈ before, earlier.event = .began

/--
A requirement on a machine finds what the entry was on another, where a value was the answer: it
does nothing but look there.  The answer is a failure if that was one, else it is the same value.
-/
structure FoundAgain (e : ModuleEntry) (call : Caller) (v : Value) (s t : Machine) : Prop where
  looks : (Resolver.require call e.resolver e.name).runOn t =
    (receive (e.value s)).runOn (t.searched e.cache e.name)
  same : (e.value s).Crosses → (Resolver.require call e.resolver e.name).runOn t =
    (.ok v, t.searched e.cache e.name)
  failure : ∀ index, e.value s = .fault index → index < s.faults.size →
    ∃ other u, (Resolver.require call e.resolver e.name).runOn t = (.ok (.fault other), u)

variable {e : ModuleEntry} {s t : Machine} {log : List Moment} {moment : Moment}

theorem LeftAlone.tail (alone : e.LeftAlone (moment :: log)) (other : moment.event ≠ .began) :
    e.LeftAlone log := by
  refine ⟨fun later inside => alone.unwritten later (.tail _ inside),
    fun before ended after same isEnd => ?_⟩
  obtain ⟨earlier, inside, began⟩ :=
    alone.unfinished (moment :: before) ended after (by rw [same, List.cons_append]) isEnd
  rcases List.mem_cons.1 inside with rfl | inside
  · exact absurd began other
  · exact ⟨earlier, inside, began⟩

namespace Path

/-- An entry that is left alone stays, and its module is not loaded again. -/
theorem left_alone (path : e.Path s log t) (alone : e.LeftAlone log)
    (present : e.value s ≠ .nil) :
    e.value t = e.value s ∧ ∀ moment ∈ log, moment.event ≠ .began := by
  induction path with
  | nil => exact ⟨rfl, fun _ inside => absurd inside List.not_mem_nil⟩
  | @cons t moment log step rest ih =>
    have onward (same : e.value moment.after = e.value moment.before)
        (other : moment.event ≠ .began) : e.value t = e.value moment.before ∧
          ∀ later ∈ moment :: log, later.event ≠ .began := by
      obtain ⟨stays, none⟩ := ih (alone.tail other) (same ▸ present)
      exact ⟨stays.trans same, List.forall_mem_cons.2 ⟨other, none⟩⟩
    cases step with
    | changed _ _ => exact onward (alone.unwritten _ List.mem_cons_self rfl) nofun
    | looked _ _ same => exact onward same nofun
    | began _ absent _ _ => exact absurd absent present
    | ended _ =>
      obtain ⟨earlier, inside, -⟩ := alone.unfinished [] _ log rfl rfl
      cases inside

/-- A module stays marked until its load ends. -/
theorem marked_until_end (path : e.Path s log t) (marked : e.name ∈ s.marks e.resolver)
    (running : ∀ moment ∈ log, moment.event ≠ .ended) : e.name ∈ t.marks e.resolver := by
  induction path with
  | nil => exact marked
  | cons step rest ih =>
    have later := fun moment inside => running moment (.tail _ inside)
    cases step with
    | changed _ marks => exact ih (marks.2 marked) later
    | looked _ marks _ => exact ih (marks.2 marked) later
    | began _ _ free _ => exact absurd marked free
    | ended _ => exact absurd rfl (running _ List.mem_cons_self)

/-- A module is loaded again only when its load has ended. -/
theorem one_load {mid after : List Moment} {first second : Moment}
    (path : e.Path s (first :: (mid ++ second :: after)) t) (begins : first.event = .began)
    (again : second.event = .began) : ∃ moment ∈ mid, moment.event = .ended := by
  cases path with
  | cons step rest =>
    obtain ⟨inner, onward⟩ := rest.split
    by_contra running
    have marked : e.name ∈ first.after.marks e.resolver := by
      cases step <;> first | assumption | cases begins
    have still := inner.marked_until_end marked fun moment inside ended =>
      running ⟨moment, inside, ended⟩
    generalize first.after.reached mid = u at onward still
    cases onward with
    | cons step rest => cases step <;> first | exact absurd still ‹_› | cases again

end Path

end ModuleEntry

namespace History

open ModuleEntry

variable {e : ModuleEntry} {s t : Machine} {log : List Moment}

/-- A collection keeps tables, though not what they hold weakly, and settings of resolvers. -/
theorem collect_step (held : List Value) : e.Step ⟨.changed, t, t.collect held⟩ :=
  .changed ⟨⟨by simp [Machine.collect], Nat.le_refl _, fun _ settled => settled⟩, rfl⟩ .rfl

theorem path (history : History e s log t) (kept : e.Kept s) : e.Path s log t := by
  induction history with
  | start => exact .nil
  | run history interpreted trail ih =>
    exact ih.append (trail.path (kept.onward ih.follows))
  | host history change cache ih =>
    exact ih.append (.single (.ofChange (kept.onward ih.follows) change cache))
  | collect history held ih => exact ih.append (.single (collect_step held))

/-- A history goes on with any computation of scripts, which has a trail. -/
theorem onward {ε α : Type} {m : MachineM ε α} (history : History e s log t) (kept : e.Kept s)
    (interpreted : Interpreted call m) :
    ∃ more, Trail e m t more ∧ History e s (log ++ more) (m.runOn t).2 := by
  have calls : ∀ site f args, Traced e (call site f args) := Calls.callAt_traced stackLimit
  obtain ⟨more, trail⟩ :=
    interpreted.traced calls t (kept.onward (history.path kept).follows)
  exact ⟨more, trail, .run history interpreted trail⟩

/-- What any requirement answers that succeeds. -/
theorem answers {depth : Nat} {v : Value} {u : Machine} (kept : e.Kept t)
    (succeeds : (Resolver.require (Calls.callAt depth) e.resolver e.name).runOn t = (.ok v, u)) :
    e.Answers v u :=
  Resolver.require_answers
    ((Resolver.load_interpreted _ _).traced (Calls.callAt_traced depth)) kept succeeds

/-- An entry that was the answer once is found ever after. -/
theorem found_again {v : Value} {u : Machine} (answers : e.Answers v t) (kept : e.Kept u)
    (grows : t.Grows u) (same : e.value u = e.value t) (call : Caller) :
    e.FoundAgain call v t u := by
  have present : e.value u ≠ .nil := same ▸ answers.entry_ne_nil
  have found : (Resolver.require call e.resolver e.name).runOn u =
      (receive (e.value u)).runOn (u.searched e.cache e.name) :=
    Resolver.require_found kept.cache present
  rw [same] at found
  refine ⟨found, fun crosses => ?_, fun index isFault known => ?_⟩
  · rw [found, receive_of_crosses crosses, answers.alike.eq_of_crosses crosses]
    rfl
  · have searched := Follows.searched e u e.cache e.name
    have settled : (u.searched e.cache e.name).Lasting (.fault index) := by
      intro other also
      cases also
      exact searched.settled index (grows.settled index (answers.lasting index isFault known))
    obtain ⟨w, x, received, alike⟩ := receive_again (ε := ModuleError) settled
    rw [found, isFault, received]
    cases alike with
    | same => exact ⟨_, _, rfl⟩
    | faults i j => exact ⟨_, _, rfl⟩

/--
At most one load of a module is in progress in any history.  A requirement that succeeds anywhere
answers with what is then the entry, which is not nil.  From there on, as long as the entry is left
alone, it stays, the loader does not start again, and every requirement finds the entry.  Any
computation of scripts goes on with a history.
-/
theorem entry_endures (history : History e s log t) (kept : e.Kept s) :
    s.reached log = t ∧
    (∀ before mid after first second,
      log = before ++ first :: (mid ++ second :: after) → first.event = .began →
        second.event = .began → ∃ moment ∈ mid, moment.event = .ended) ∧
    (∀ before after, log = before ++ after → ∀ depth v u,
      (Resolver.require (Calls.callAt depth) e.resolver e.name).runOn (s.reached before) =
        (.ok v, u) → v ≠ .nil ∧ Alike (e.value u) v) ∧
    (∀ before between after, log = before ++ (between ++ after) → ∀ depth v r, e.Kept r →
      (Resolver.require (Calls.callAt depth) e.resolver e.name).runOn r =
        (.ok v, s.reached before) → e.LeftAlone between →
          e.value (s.reached (before ++ between)) = e.value (s.reached before) ∧
          (∀ moment ∈ between, moment.event ≠ .began) ∧
          ∀ call, e.FoundAgain call v (s.reached before) (s.reached (before ++ between))) ∧
    ∀ {ε α : Type} {m : MachineM ε α}, Interpreted call m →
      ∃ more, Trail e m t more ∧ History e s (log ++ more) (m.runOn t).2 := by
  have path := history.path kept
  refine ⟨path.reached_eq, fun before mid after first second same begins again => ?_,
    fun before after same depth v u succeeds => ?_,
    fun before between after same depth v r keeps succeeds alone => ?_,
    fun interpreted => history.onward kept interpreted⟩
  · subst same
    exact path.split.2.one_load begins again
  · subst same
    have here := answers (kept.onward path.split.1.follows) succeeds
    exact ⟨here.present, here.alike⟩
  · subst same
    obtain ⟨first, rest⟩ := path.split
    have inner := rest.split.1
    rw [← reached_append] at inner
    have here := answers keeps succeeds
    obtain ⟨stays, none⟩ := inner.left_alone alone here.entry_ne_nil
    exact ⟨stays, none, found_again here ((kept.onward first.follows).onward inner.follows)
      inner.follows.toGrows stays⟩

/-- The entry of a module in the cache of the first resolver. -/
def shelf : ModuleEntry := { resolver := 0, name := "a", cache := ⟨1⟩ }

/-- A machine with a resolver in whose cache a module has an entry. -/
def shelved (v : Value) : Machine where
  tables := #[.empty, Table.empty.set (.text "a") v]
  resolvers := #[{ loaded := some ⟨1⟩ }]
  faults := #[.error .spentPanic]

theorem value_shelved (v : Value) : shelf.value (shelved v) = v := by
  have there : (shelved v).tables[1]?.getD default = Table.empty.set (.text "a") v := rfl
  rw [value, held, show shelf.cache.index = 1 from rfl, there, Table.get_set]
  exact if_pos rfl

theorem kept_shelved (v : Value) : shelf.Kept (shelved v) := ⟨rfl, Nat.one_lt_two⟩

/-- The machine after the host has registered a loader. -/
def registered (s : Machine) : Machine :=
  { s with resolvers := s.resolvers.modify 0 fun resolver =>
      { resolver with preloads := setPair "a" (.script .nil) resolver.preloads } }

/-- A module that is `false` is not loaded again, not even by a loader that the host registers. -/
theorem entry_endures_false :
    let s := (shelved (.bool false)).searched shelf.cache shelf.name
    (Resolver.require call shelf.resolver shelf.name).runOn (shelved (.bool false)) =
        (.ok (.bool false), s) ∧
      History shelf s [⟨.changed, s, registered s⟩] (registered s) ∧
      (Resolver.require call shelf.resolver shelf.name).runOn (registered s) =
        (.ok (.bool false), (registered s).searched shelf.cache shelf.name) := by
  have kept := kept_shelved (.bool false)
  have first : (Resolver.require call shelf.resolver shelf.name).runOn
      (shelved (.bool false)) = _ :=
    Resolver.require_entry kept (value_shelved (.bool false)) nofun nofun
  have stays := kept.onward (.searched shelf _ shelf.cache shelf.name)
  have value := (shelf.value_searched _ shelf.cache shelf.name).trans (value_shelved (.bool false))
  intro s
  have history : History shelf s [⟨.changed, s, registered s⟩] (registered s) :=
    .host .start (.resolver 0 _ fun _ => rfl)
      ((Keeps.resolver s 0 fun _ => by rfl).caches shelf.resolver)
  have alone : shelf.LeftAlone [⟨.changed, s, registered s⟩] := by
    refine ⟨fun moment inside _ => ?_, fun before moment after same ended => ?_⟩
    · rw [List.mem_singleton.1 inside]
      rfl
    · have inside : moment ∈ [⟨.changed, s, registered s⟩] := same ▸ by simp
      rw [List.mem_singleton.1 inside] at ended
      cases ended
  obtain ⟨-, -, -, endures, -⟩ := entry_endures history stays
  obtain ⟨-, -, found⟩ := endures [] _ [] rfl stackLimit (.bool false) _ kept first alone
  have crosses : (shelf.value s).Crosses := by
    rw [value]
    exact nofun
  exact ⟨first, history, (found call).same crosses⟩

/-- What scripts get for a failure that was entered is another value each time. -/
theorem resolve_failure (call : Caller) {index : Nat} {error : ScriptError} (kept : e.Kept s)
    (entry : e.value s = .fault index) (there : s.faults[index]? = some (.error error)) :
    ∃ u, (Calls.native call (.resolve e.resolver) [.text e.name]).runOn s =
        (.ok [.fault s.faults.size], u) ∧ e.Kept u ∧ e.value u = .fault index ∧
      u.faults = s.faults.push (.error error) := by
  obtain ⟨t, searched⟩ : ∃ t, s.searched e.cache e.name = t := ⟨_, rfl⟩
  have follows : e.Follows s t := searched ▸ .searched e s _ _
  have value : e.value t = e.value s := searched ▸ e.value_searched s _ _
  have faults : t.faults = s.faults := by
    obtain ⟨tables, -, same⟩ := s.searched_eq e.cache e.name
    rw [← searched, same]
  have received : (receive (.fault index) : ModuleM Value).runOn t = (.ok (.fault index), t) := by
    rw [receive, runOn_bind_ok (runOn_fault index t), faults, there]
    rfl
  have found : (Resolver.require call e.resolver e.name).runOn s = (.ok (.fault index), t) := by
    rw [Resolver.require_found kept.cache (fun absent => by cases entry.symm.trans absent),
      show s.held e.cache e.name = .fault index from entry, searched, received]
  have passed : (mapError .loading (Resolver.require call e.resolver e.name) :
      MachineM ScriptError Value).runOn s = (.ok (.fault index), t) := by
    rw [runOn_mapError, found]
    rfl
  have sends : (send (.fault index) : MachineM ScriptError Value).runOn t =
      (.ok (.fault s.faults.size), { t with faults := s.faults.push (.error error) }) := by
    rw [send, runOn_bind_ok (runOn_fault index t), faults, there, runOn_newFault, faults]
    rfl
  have grows : t.Grows { t with faults := s.faults.push (.error error) } :=
    faults ▸ Grows.newFault t (.error error)
  refine ⟨{ t with faults := s.faults.push (.error error) }, ?_,
    (kept.onward follows).onward ⟨grows, rfl⟩, value.trans entry, rfl⟩
  rw [Calls.native_resolve, runOn_ofHost, runOn_bind_ok passed, runOn_bind_ok sends]
  rfl

/-- Two requirements one after the other do not give the same value for a failure. -/
theorem requirements_differ : ∃ t u,
    (Calls.native call (.resolve 0) [.text "a"]).runOn (shelved (.fault 0)) =
        (.ok [.fault 1], t) ∧
      shelf.value t = shelf.value (shelved (.fault 0)) ∧
      (Calls.native call (.resolve 0) [.text "a"]).runOn t = (.ok [.fault 2], u) := by
  have kept := kept_shelved (.fault 0)
  have value := value_shelved (.fault 0)
  obtain ⟨t, first, stays, same, faults⟩ := resolve_failure call kept value rfl
  have there : t.faults[0]? = some (.error .spentPanic) := by rw [faults]; rfl
  obtain ⟨u, second, -⟩ := resolve_failure call stays same there
  have size : t.faults.size = 2 := by rw [faults]; rfl
  rw [size] at second
  exact ⟨t, u, first, same.trans value.symm, second⟩

end History

end ScriptHost
