import ScriptHost.Proofs.Installation
import ScriptHost.Proofs.ModuleDepth

/-!
# Loading a graph of modules

Names are required one after the other, and a failure does not end the row.  What was finished by
then stays in the cache and its bodies do not run again, so each requirement goes on with the search
where the ones before left it.
-/

namespace ScriptHost

open MachineM ScriptM

/-- Requires names one after the other, and goes on after a failure. -/
def Resolver.requireEach (call : Caller) (r : Nat) (names : List String) :
    ModuleM (List (Except ModuleError Value)) :=
  names.mapM fun n => attempt (require call r n)

section

variable {q : Requirer} {limit : Nat} {modules : ModuleSet q limit} {matters : String → Prop}
  {done names : List String} {n : String} {s t u w : Machine}

/-- Only names that the cache does not have at the start matter. -/
theorem Fresh.stage (fresh : Fresh modules s) :
    Stage modules (fun n => s.held q.cache n = .nil) [] [] s := by
  refine ⟨fresh.ready, fresh.files, fresh.resolver, ?_, ?_, fresh.nesting, ?_⟩
  · intro n absent
    simp [absent]
  · intro n absent
    rw [absent]
    exact nofun
  · rw [Machine.top, fresh.frames]
    exact Nat.zero_le _

namespace Stage

variable (stage : Stage modules matters [] done s) (fits : modules.Fits)

include stage fits

theorem require (matter : ∀ m, modules.graph.Reaches n m → matters m) :
    ∃ failure completed started t, modules.graph.Search [] done [n] failure completed started ∧
      (Resolver.require call q.resolver n).runOn s = (q.answer n t failure, t) ∧
        Leads modules matters [] (completed ++ done) started s t := by
  obtain ⟨failure, completed, started, search⟩ := ModuleGraph.Search.exists_of_chain fits.bounded
    limit [] done [n] (Nat.le_add_left _ _) .nil nofun
  have limit_lt := fits.limit_lt
  have goesOn : Continues modules matters [] [n] stackLimit := by
    refine ⟨fits, .nil, nofun, ?_, ?_⟩
    · intro m inside
      obtain rfl := List.mem_singleton.1 inside
      exact matter
    · exact Nat.le_add_right _ _
  obtain ⟨t, run, leads⟩ := search.answers goesOn s stage
  exact ⟨failure, completed, started, t, search, run, leads⟩

theorem requireEach (matter : ∀ n ∈ names, ∀ m, modules.graph.Reaches n m → matters m) :
    ∃ failures completed started answers t,
      modules.graph.Row done names failures completed started ∧
        (Resolver.requireEach call q.resolver names).runOn s = (.ok answers, t) ∧
          Leads modules matters [] (completed ++ done) started s t := by
  induction names generalizing done s with
  | nil => exact ⟨[], [], [], [], s, .nil, rfl, stage.leads⟩
  | cons n names ih =>
    obtain ⟨failure, completed, started, t, search, run, leads⟩ :=
      stage.require fits (matter n List.mem_cons_self)
    obtain ⟨failures, completed', started', answers, u, row, runs, onward⟩ :=
      ih leads.stage fun n inside => matter n (.tail _ inside)
    have caught : ∃ answer, (attempt (Resolver.require call q.resolver n) :
        ModuleM (Except ModuleError Value)).runOn s = (.ok answer, t) := by
      cases failure with
      | none => exact ⟨.ok (t.held q.cache n), by rw [runOn_attempt, run]; rfl⟩
      | some e => exact ⟨.error e, by rw [runOn_attempt, run]; rfl⟩
    obtain ⟨answer, caught⟩ := caught
    refine ⟨_, _, _, answer :: answers, u, .cons search row, ?_, ?_⟩
    · rw [Resolver.requireEach] at runs ⊢
      rw [List.mapM_cons, runOn_bind_ok caught, runOn_bind_ok runs]
      rfl
    · simpa [List.append_assoc] using leads.trans onward

end Stage

end

/--
What requiring a name comes to amid other names, before which the machine was `s`: the requirement
leads from `t` to `u`, and the names after it to `w`.
-/
structure ModuleSet.Outcome {q : Requirer} {limit : Nat} (modules : ModuleSet q limit)
    (before : List String) (n : String) (s t u w : Machine) (result : Except (Stop ModuleError) Value) : Prop where
  succeeds : (∃ v, result = .ok v) ↔ modules.graph.Loadable n
  value : ∀ v, result = .ok v → v = u.held q.cache n ∧ v ≠ .nil
  reached : ∀ v, result = .ok v → ∀ m, modules.graph.Reaches n m →
    u.held q.cache m ≠ .nil ∧ w.loads.toList.count m = s.loads.toList.count m + 1
  caused : ∀ stop, result = .error stop → ∃ e m, stop = .error e ∧ modules.graph.Reaches n m ∧
    (e.cause = .notFound m ∧ modules.graph m = none ∨
      e.cause = .cycle m ∧ modules.graph.OnCycle m)
  /-- The search says which bodies run, and the cache has those that were completed. -/
  follows : ∃ failures done begun failure completed started,
    modules.graph.Row [] before failures done begun ∧
      modules.graph.Search [] done [n] failure completed started ∧
        u.loads.toList = t.loads.toList ++ started ∧
          ∀ m, s.held q.cache m = .nil → (t.held q.cache m ≠ .nil ↔ m ∈ done) ∧
            (u.held q.cache m ≠ .nil ↔ m ∈ completed ++ done)
  finished : ∀ m, s.held q.cache m = .nil → u.held q.cache m ≠ .nil →
    w.held q.cache m = u.held q.cache m ∧ w.loads.toList.count m = u.loads.toList.count m

section

variable {q : Requirer} {limit : Nat} {modules : ModuleSet q limit} {before after done begun completed started completed'
  started' : List String} {n : String} {failures failures' : List (Option ModuleError)}
  {failure : Option ModuleError} {s t u w : Machine}

theorem Requirer.answer_eq_ok {v : Value} :
    q.answer n u failure = .ok v ↔ failure = none ∧ v = u.held q.cache n := by
  cases failure with
  | none => simp [answer, eq_comm]
  | some e => simp [answer]

/-- A requirement comes to what the searches before it, for it and after it say together. -/
theorem ModuleSet.outcome
    (row : modules.graph.Row [] before failures done begun)
    (search : modules.graph.Search [] done [n] failure completed started)
    (row' : modules.graph.Row (completed ++ done) after failures' completed' started')
    (first : Leads modules (fun m => s.held q.cache m = .nil) [] done begun s t)
    (second : Leads modules (fun m => s.held q.cache m = .nil) [] (completed ++ done) started t u)
    (third : Leads modules (fun m => s.held q.cache m = .nil) [] (completed' ++ (completed ++ done))
      started' u w)
    (unloaded : ∀ m, modules.graph.Reaches n m → s.held q.cache m = .nil) :
    modules.Outcome before n s t u w (q.answer n u failure) := by
  have settled : modules.graph.Settled done := by simpa using row.settled .nil
  have later : modules.graph.Settled (completed ++ done) := search.settled settled
  have loadable := search.none_iff_loadable settled
  have whole := row.append (by simpa using ModuleGraph.Row.cons search row')
  have logged : w.loads.toList = s.loads.toList ++ (begun ++ (started ++ started')) := by
    rw [third.loads, second.loads, first.loads]
    simp
  have arrived : failure = none → n ∈ completed ++ done := by
    rintro rfl
    exact search.names_mem n List.mem_cons_self
  have there {m : String} (inside : m ∈ completed ++ done) (absent : s.held q.cache m = .nil) :
      u.held q.cache m ≠ .nil := (second.stage.cached m absent).2 inside
  refine ⟨?_, ?_, ?_, ?_, ?_, ?_⟩
  · simp only [Requirer.answer_eq_ok, exists_and_left, exists_eq, and_true, loadable]
  · intro v answered
    obtain ⟨success, rfl⟩ := Requirer.answer_eq_ok.1 answered
    exact ⟨rfl, there (arrived success) (unloaded n .refl)⟩
  · intro v answered m reaches
    obtain ⟨success, _⟩ := Requirer.answer_eq_ok.1 answered
    have inside := later.reaches_mem (arrived success) reaches
    refine ⟨there inside (unloaded m reaches), ?_⟩
    have once : (begun ++ (started ++ started')).count m = 1 := by
      rw [whole.count_started (later.loadable inside)]
      exact List.count_eq_one_of_mem whole.nodup_completed (by simp_all)
    rw [logged, List.count_append, once]
  · intro stop failed
    cases failure with
    | none => cases failed
    | some e =>
      cases failed
      obtain ⟨a, inside, m, cause⟩ := search.cause rfl nofun
      obtain rfl := List.mem_singleton.1 inside
      exact ⟨e, m, rfl, cause⟩
  · exact ⟨failures, done, begun, failure, completed, started, row, search, second.loads,
      fun m absent => ⟨first.stage.cached m absent, second.stage.cached m absent⟩⟩
  · intro m absent present
    have inside := (second.stage.cached m absent).1 present
    refine ⟨third.kept m present, ?_⟩
    have none_ : started'.count m = 0 := by
      rw [row'.count_started (later.loadable inside)]
      exact List.count_eq_zero.2 (row'.not_completed_again inside)
    rw [third.loads, List.count_append, none_, Nat.add_zero]

end

/-- Requiring a name amid other names has the outcome that the graph says. -/
def ModuleSet.Answered {q : Requirer} {limit : Nat} (modules : ModuleSet q limit) (s : Machine)
    (before : List String) (n : String) (after : List String) : Prop :=
  ∃ answers t result u answers' w,
    (Resolver.requireEach call q.resolver before).runOn s = (.ok answers, t) ∧
      (Resolver.require call q.resolver n).runOn t = (result, u) ∧
        (Resolver.requireEach call q.resolver after).runOn u = (.ok answers', w) ∧
          modules.Outcome before n s t u w result

/--
Whatever names are required before and after a name, the name is loaded exactly if all that it
reaches has a module and is on no cycle.  Its modules are then in the cache, and each body has run
once at the end.  A failure comes from a name without a module or from one on a cycle.
-/
theorem ModuleSet.require_amid {q : Requirer} {limit : Nat} (modules : ModuleSet q limit)
    (fits : modules.Fits) {s : Machine} (fresh : Fresh modules s) (before after : List String)
    (n : String) (unloaded : ∀ a ∈ before ++ n :: after, ∀ m, modules.graph.Reaches a m →
      s.held q.cache m = .nil) : modules.Answered s before n after := by
  obtain ⟨failures, done, begun, answers, t, row, run, first⟩ :=
    fresh.stage.requireEach fits fun a inside => unloaded a (List.mem_append_left _ inside)
  rw [List.append_nil] at first
  have here := unloaded n (List.mem_append_right _ List.mem_cons_self)
  obtain ⟨failure, completed, started, u, search, required, second⟩ := first.stage.require fits here
  obtain ⟨failures', completed', started', answers', w, row', run', third⟩ :=
    second.stage.requireEach fits fun a inside =>
      unloaded a (List.mem_append_right _ (.tail _ inside))
  exact ⟨answers, t, _, u, answers', w, run, required, run',
    outcome row search row' first second third here⟩

/-- A module in a diamond of four, one of which requires itself and another returns an object. -/
def ModuleText.diamond : List ModuleText :=
  [plain "a" ["b", "c"], plain "b" ["c"], plain "c" [] "setmetatable(\x7b\x7d, \x7b\x7d)",
    plain "x" ["c", "x"]]

theorem ModuleText.readable_diamond : Readable 4 diamond :=
  ⟨by decide +kernel, by decide +kernel, by decide +kernel⟩

/-- The name that fails before has loaded a module already, whose body runs once all the same. -/
theorem ModuleSet.require_amid_diamond :
    ∃ (modules : ModuleSet (.plain 0 ⟨2⟩ ⟨1⟩) 4) (s t u w : Machine) (v : Value),
      modules.Fits ∧ Fresh modules s ∧ (Resolver.require call 0 "a").runOn t = (.ok v, u) ∧
        u.held ⟨2⟩ "c" ≠ .nil ∧ w.loads.toList.count "c" = s.loads.toList.count "c" + 1 := by
  have fits : (ModuleText.modules ModuleText.readable_diamond 0 ⟨2⟩ ⟨1⟩).Fits :=
    ModuleText.fits _ _ _ _ (by decide) (by decide)
  obtain ⟨s, -, fresh, empty⟩ := Resolver.exists_fresh call
    (ModuleText.modules ModuleText.readable_diamond 0 ⟨2⟩ ⟨1⟩)
  have search : (ModuleText.graph ModuleText.diamond).Search [] [] ["a"] none ["a", "b", "c"]
      ["a", "b", "c"] :=
    .loaded List.not_mem_nil List.not_mem_nil rfl
      (.loaded List.not_mem_nil (by decide) rfl
        (.loaded List.not_mem_nil (by decide) rfl .nil .nil) (.finished (by decide) .nil)) .nil
  obtain ⟨answers, t, result, u, answers', w, -, required, -, outcome⟩ :=
    require_amid _ fits fresh ["x"] ["a", "missing"] "a" fun _ _ m _ => empty m
  obtain ⟨v, rfl⟩ := outcome.succeeds.2 ((search.none_iff_loadable .nil).1 rfl)
  have reaches : (ModuleText.graph ModuleText.diamond).Reaches "a" "c" :=
    .single ⟨["b", "c"], rfl, by decide⟩
  obtain ⟨cached, once⟩ := outcome.reached v rfl "c" reaches
  exact ⟨_, s, t, u, w, v, fits, fresh, required, cached, once⟩

/-- Texts that can be read by themselves are not enough: calls must leave them room. -/
theorem ModuleSet.require_amid_needs_room :
    ¬ ∀ (q : Requirer) (modules : ModuleSet q 1) (s : Machine), Fresh modules s →
      ∀ (before after : List String) (n : String), (∀ a ∈ before ++ n :: after, ∀ m,
        modules.graph.Reaches a m → s.held q.cache m = .nil) →
          modules.Answered s before n after := by
  intro claim
  obtain ⟨s, -, fresh, empty⟩ := Resolver.exists_fresh call
    (ModuleText.modules ModuleText.readable_deep 0 ⟨2⟩ ⟨1⟩)
  obtain ⟨answers, t, result, u, answers', w, run, required, -, outcome⟩ :=
    claim _ _ s fresh [] [] "m1" fun a _ m _ => empty m
  cases run
  obtain ⟨e, started, answers, m, text, cause⟩ := ModuleText.answers_of_sinks
    ModuleText.readable_deep 0 ⟨2⟩ ⟨1⟩ empty ModuleText.sinks_deep
    (by decide : stackLimit ≤ stackLimit - 20 + 2 * nestingLimit)
  obtain ⟨u', failed, -⟩ := answers s fresh.stage
  have same := required.symm.trans failed
  cases same
  obtain ⟨e', x, same, -, missing | cyclic⟩ := outcome.caused _ rfl
  · cases same
    rw [cause] at missing
    cases missing.1
  · cases same
    rw [cause] at cyclic
    cases cyclic.1

end ScriptHost
