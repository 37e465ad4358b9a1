import ScriptHost.Proofs.ModuleRuns

/-!
# Requiring the modules of a graph

A resolver over a set of modules answers what the search of their graph says.  The body of a module
goes on while the names that it requires are answered with values, so the runs of bodies follow the
search, name by name.
-/

namespace ScriptHost

open MachineM ScriptM

/-- What a resolver answers with: the value in the cache, or a failure. -/
def Requirer.answer (q : Requirer) (n : String) (t : Machine) :
    Option ModuleError → Except (Stop ModuleError) Value
  | none => .ok (t.held q.cache n)
  | some e => .error (.error e)

/-- How a body ends: with a value, or with the failure of what it requires. -/
inductive Ends (call : Caller) (q : Requirer) (own : String) (start t : Machine) :
    Option ModuleError → Except (Stop Value) Completion → Prop where
  | returned {c : Completion} (finishes : Finishes call q own start c t) :
      Ends call q own start t none (.ok c)
  | raised {e : ModuleError} {i : Nat} (fault : t.faults[i]? = some (.error (.loading e))) :
      Ends call q own start t (some e) (.error (.error (.fault i)))

section

variable {q : Requirer} {limit : Nat} (modules : ModuleSet q limit) (matters : String → Prop)

/-- Requiring a name has a result of a search wherever these names are in progress and finished. -/
def Answers (call : Caller) (stack done : List String) (n : String) (failure : Option ModuleError)
    (completed started : List String) : Prop :=
  ∀ s, Stage modules matters stack done s → ∃ t,
    (Resolver.require call q.resolver n).runOn s = (q.answer n t failure, t) ∧
      Leads modules matters stack (completed ++ done) started s t

/-- A body that requires names has a result of a search from any point that it has reached. -/
def Completes (depth : Nat) (stack done names : List String) (failure : Option ModuleError)
    (completed started : List String) : Prop :=
  ∀ (own : String) (start s : Machine) (m : ScriptM Completion) (before : List String),
    start.base + 297 ≤ callRoom * start.nesting →
    Performs (Calls.callAt depth) q own start names m s →
    Leads modules matters stack done before start s → ∃ outcome t,
      m.runOn s = (outcome, t) ∧ Ends (Calls.callAt depth) q own start t failure outcome ∧
        Leads modules matters stack (completed ++ done) (before ++ started) start t

variable {modules matters} {stack done completed started : List String} {n : String}

/-! ## One name -/

namespace Answers

variable {call : Caller}

theorem finished (matter : matters n) (present : n ∈ done) :
    Answers modules matters call stack done n none [] [] := by
  intro s stage
  refine ⟨_, ?_, stage.lookup n⟩
  rw [Resolver.require_finished stage matter present, Requirer.answer, Machine.held_searched]

theorem cycle (matter : matters n) (absent : n ∉ done) (open_ : n ∈ stack) :
    Answers modules matters call stack done n (some (.cycle n)) [] [] := by
  intro s stage
  exact ⟨_, Resolver.require_cycle_error stage matter absent open_, stage.lookup n⟩

theorem notFound (matter : matters n) (absent : n ∉ done) (closed : n ∉ stack)
    (nowhere : modules.graph n = none) :
    Answers modules matters call stack done n (some (.notFound n)) [] [] := by
  intro s stage
  have looked := stage.lookup n
  have missing : (Resolver.load call q.resolver n).runOn _ = _ :=
    Resolver.load_nowhere looked.stage nowhere
  have run := Resolver.require_error stage matter absent closed missing
  rw [Machine.unmark_mark] at run
  exact ⟨_, run, looked⟩

/-- A text that is nested too deep to be read inside the calls that are in progress. -/
theorem tooDeep {path source : String} (matter : matters n) (absent : n ∉ done) (closed : n ∉ stack)
    (found : modules.index.get? n = some (.script path))
    (text : modules.files.readText path = .ok source)
    (deep : Routine.ofBytes source.toByteArray ["_ENV"] stack.length = .error .tooDeep) :
    Answers modules matters call stack done n (some (.load n (.runtime "C stack overflow"))) []
      [n] := by
  intro s stage
  have looked := stage.lookup n
  have unread : (Resolver.load call q.resolver n).runOn _ = _ :=
    Resolver.load_tooDeep looked.stage found text deep
  have run := Resolver.require_error stage matter absent closed unread
  rw [Machine.unmark_mark] at run
  exact ⟨_, run, looked.logged n⟩

variable {needed : List String} {depth : Nat} {path source : String} {routine : Routine}
  (deep : stackLimit ≤ depth + 2 * nestingLimit) (matter : matters n) (absent : n ∉ done)
  (closed : n ∉ stack) (opens : modules.Opens stack n needed path source routine)

include deep matter absent closed opens

theorem failed {e : ModuleError}
    (body : Completes modules matters depth (n :: stack) done needed (some e) completed started) :
    Answers modules matters (Calls.callAt (depth + 1)) stack done n (some (.load n (.loading e)))
      completed (n :: started) := by
  intro s stage
  have looked := stage.lookup n
  obtain ⟨_, t, run, ends, leads⟩ := body n _ _ _ [] (Machine.base_atBody looked.stage.top)
    (looked.stage.starts opens deep) (looked.stage.atBody opens).leads
  cases ends with
  | raised fault =>
    refine ⟨_, Resolver.require_error stage matter absent closed
      (Resolver.load_error looked.stage opens fault run), ?_⟩
    exact looked.trans (leads.afterBody looked.stage)

theorem loaded (fresh : n ∉ completed)
    (body : Completes modules matters depth (n :: stack) done needed none completed started) :
    Answers modules matters (Calls.callAt (depth + 1)) stack done n none (n :: completed)
      (n :: started) := by
  intro s stage
  have looked := stage.lookup n
  obtain ⟨_, t, run, ends, leads⟩ := body n _ _ _ [] (Machine.base_atBody looked.stage.top)
    (looked.stage.starts opens deep) (looked.stage.atBody opens).leads
  obtain ⟨finishes⟩ := ends
  obtain ⟨v, rest, u, run, finished⟩ := Resolver.load_ok looked.stage opens run finishes
  have left := looked.trans ((leads.quiet finished.quiet finished.cells).afterBody looked.stage)
  have missing : n ∉ completed ++ done := by
    rw [List.mem_append]
    exact not_or.2 ⟨fresh, absent⟩
  have first := finished.crosses _ List.mem_cons_self
  have relied : q.relies (((s.searched q.cache n).afterBody q n path routine u).entering q.cache n v) :=
    Requirer.kept_beside finished.relies rfl rfl rfl rfl
  refine ⟨_, ?_, left.entering matter missing finished.present first relied⟩
  rw [Resolver.require_ok stage matter absent closed finished.present first run, Requirer.answer,
    Machine.held_entering left.stage.ready.cache, if_pos rfl]
  rfl

end Answers

/-! ## One call of a body -/

section

variable {s t u : Machine} {site : CallSite} {slot start : Nat}

/-- A call of the function of a resolver finds the machine as the body left it. -/
theorem Stage.framed (stage : Stage modules matters stack done t)
    (room : t.base + 297 ≤ callRoom * t.nesting) (inside : slot ≤ Grammar.Layout.slotLimit)
    (below : start ≤ t.base + slot) :
    Stage modules matters stack done
      { t with frames := Calls.nativeFrame site q.function start 1 :: t.frames } := by
  refine ⟨⟨stage.ready.cache, stage.ready.apart, stage.ready.require, stage.ready.native,
    Requirer.kept_beside stage.ready.relies rfl rfl rfl rfl⟩,
    stage.files, stage.resolver, stage.cached, stage.crosses, stage.nesting, ?_⟩
  change start + 2 ≤ callRoom * t.nesting
  simp only [Grammar.Layout.slotLimit] at inside
  omega

theorem Leads.unframed {frame : Frame} (stage : Stage modules matters stack done t)
    (leads : Leads modules matters stack (completed ++ done) started
      { t with frames := frame :: t.frames } u) :
    Leads modules matters stack (completed ++ done) started t { u with frames := t.frames } := by
  have later := leads.stage
  have steady := leads.steady
  have relied : q.relies { u with frames := t.frames } :=
    Requirer.kept_beside later.ready.relies rfl rfl rfl rfl
  refine ⟨⟨⟨later.ready.cache, later.ready.apart, later.ready.require, later.ready.native, relied⟩,
    later.files, later.resolver, later.cached, later.crosses, later.nesting, ?_⟩,
    ⟨steady.globals, steady.files, steady.nesting, steady.resolvers, rfl, rfl, steady.tables,
      steady.functions, steady.require, fun _ => relied⟩, leads.cells, leads.kept, leads.loads⟩
  change t.top ≤ callRoom * u.nesting
  rw [later.nesting, ← stage.nesting]
  exact stage.top

theorem Leads.faulted (leads : Leads modules matters stack done started s t)
    (faults : Array Fault) : Leads modules matters stack done started s { t with faults } :=
  leads.quiet ⟨⟨rfl, rfl, rfl, rfl, rfl, rfl, Nat.le_refl _, fun _ _ found => found, rfl,
    fun relied => Requirer.kept_beside relied rfl rfl rfl rfl⟩, fun _ => rfl, rfl⟩ leads.cells

variable {depth : Nat} (stage : Stage modules matters stack done t)
  (room : t.base + 297 ≤ callRoom * t.nesting) (own : site.slot = some slot)
  (inside : slot ≤ Grammar.Layout.slotLimit) (short : stack.length < nestingLimit)

include stage room own inside short

theorem Stage.call_frame (depth : Nat) (n : String) : ∃ start ≤ t.base + slot,
    (Calls.callAt (depth + 1) site (.function q.function) [.text n]).runOn t =
      (inFrame (Calls.nativeFrame site q.function start 1)
        (Calls.native (Calls.callAt depth) (.resolve q.resolver) [.text n])).runOn t := by
  refine Calls.callAt_native stage.ready.native [.text n] own ?_
  rw [stage.nesting] at room
  simp only [nestingLimit, stackLimit, nativeSlots, callRoom, Grammar.Layout.slotLimit,
    List.length_singleton] at *
  omega

theorem Answers.call_none (matter : matters n) (answers : Answers modules matters
    (Calls.callAt depth) stack done n none completed started) (there : n ∈ completed ++ done) :
    ∃ u, (Calls.callAt (depth + 1) site (.function q.function) [.text n]).runOn t =
      (.ok [u.held q.cache n], u) ∧ u.held q.cache n ≠ .nil ∧ (u.held q.cache n).Crosses ∧
        Leads modules matters stack (completed ++ done) started t u := by
  obtain ⟨start, below, call⟩ := stage.call_frame room own inside short depth n
  obtain ⟨u, run, leads⟩ := answers _ (stage.framed room inside below)
  have crosses := leads.stage.crosses n matter
  refine ⟨{ u with frames := t.frames }, ?_, (leads.stage.cached n matter).2 there, crosses,
    leads.unframed stage⟩
  rw [call, runOn_inFrame, Calls.resolve_ok crosses run]
  rfl

theorem Answers.call_some {e : ModuleError} (answers : Answers modules matters
    (Calls.callAt depth) stack done n (some e) completed started) :
    ∃ i u, (Calls.callAt (depth + 1) site (.function q.function) [.text n]).runOn t =
      (.error (.error (.fault i)), u) ∧ u.faults[i]? = some (.error (.loading e)) ∧
        Leads modules matters stack (completed ++ done) started t u := by
  obtain ⟨start, below, call⟩ := stage.call_frame room own inside short depth n
  obtain ⟨u, run, leads⟩ := answers _ (stage.framed room inside below)
  refine ⟨u.faults.size, _, ?_, Array.getElem?_push_size,
    (leads.faulted (u.faults.push (.error (.loading e)))).unframed stage⟩
  rw [call, runOn_inFrame, Calls.resolve_error run]

end

/-! ## Bodies -/

namespace Completes

variable {depth : Nat} {names : List String} {failure : Option ModuleError}

theorem nil : Completes modules matters depth stack done [] none [] [] := by
  intro own start s m before room performs leads
  cases performs with
  | ends run quiet cells finishes =>
    refine ⟨_, _, run, .returned finishes, ?_⟩
    rw [List.append_nil]
    exact leads.quiet quiet cells

variable {completed' started' : List String}

/-- A body goes on after a name that is answered with a value. -/
theorem cons (short : stack.length < nestingLimit) (matter : matters n)
    (answers : Answers modules matters (Calls.callAt depth) stack done n none completed started)
    (there : n ∈ completed ++ done)
    (rest : Completes modules matters (depth + 1) stack (completed ++ done) names failure completed'
      started') :
    Completes modules matters (depth + 1) stack done (n :: names) failure (completed' ++ completed)
      (started ++ started') := by
  intro own start s m before room performs leads
  cases performs with
  | @requires _ _ t _ _ site slot onward run called inside quiet cells performs =>
    have arrived := leads.quiet quiet cells
    have steady := arrived.steady
    have here : t.base + 297 ≤ callRoom * t.nesting := by
      rw [steady.base, steady.nesting]
      exact room
    obtain ⟨u, call, present, crosses, leads'⟩ :=
      answers.call_none arrived.stage here called inside short matter there
    obtain ⟨outcome, w, further, ends, finally_⟩ := rest own start u (onward [u.held q.cache n])
      (before ++ started) room (performs u leads'.steady leads'.cells present crosses)
      (arrived.trans leads')
    refine ⟨outcome, w, ?_, ends, ?_⟩
    · rw [run, runOn_bind_ok call, further]
    · simpa [List.append_assoc] using finally_

/-- A body ends with the first name that is answered with a failure. -/
theorem stop {e : ModuleError} (short : stack.length < nestingLimit)
    (answers : Answers modules matters (Calls.callAt depth) stack done n (some e) completed
      started) :
    Completes modules matters (depth + 1) stack done (n :: names) (some e) completed started := by
  intro own start s m before room performs leads
  cases performs with
  | @requires _ _ t _ _ site slot onward run called inside quiet cells performs =>
    have arrived := leads.quiet quiet cells
    have steady := arrived.steady
    have here : t.base + 297 ≤ callRoom * t.nesting := by
      rw [steady.base, steady.nesting]
      exact room
    obtain ⟨i, u, call, fault, leads'⟩ := answers.call_some arrived.stage here called inside short
    refine ⟨_, u, ?_, .raised fault, arrived.trans leads'⟩
    rw [run, runOn_bind_stop call]

end Completes

/-! ## Searches -/

variable (modules matters) in
/-- Names that a chain of modules in progress goes on with, as calls are left for each level. -/
structure Continues (stack names : List String) (depth : Nat) : Prop where
  fits : modules.Fits
  chain : modules.graph.Chain stack
  needs : ∀ n ∈ names, ∀ a ∈ stack.head?, modules.graph.Needs a n
  matter : ∀ n ∈ names, ∀ m, modules.graph.Reaches n m → matters m
  enough : stackLimit ≤ depth + 2 * stack.length

namespace Continues

variable {names needed : List String} {depth : Nat}

theorem short (goesOn : Continues modules matters stack names depth) : stack.length < nestingLimit :=
  Nat.lt_of_le_of_lt (goesOn.fits.bounded _ goesOn.chain) goesOn.fits.limit_lt

/-- The body that goes on has enough calls left. -/
theorem deep (goesOn : Continues modules matters stack names depth) :
    stackLimit ≤ depth + 1 + 2 * nestingLimit := by
  have short := goesOn.short
  have enough := goesOn.enough
  omega

theorem head (goesOn : Continues modules matters stack (n :: names) depth) : matters n :=
  goesOn.matter n List.mem_cons_self n .refl

theorem tail (goesOn : Continues modules matters stack (n :: names) depth) :
    Continues modules matters stack names depth where
  fits := goesOn.fits
  chain := goesOn.chain
  needs n inside := goesOn.needs n (.tail _ inside)
  matter n inside := goesOn.matter n (.tail _ inside)
  enough := goesOn.enough

/-- A body is two calls further down. -/
theorem inner (goesOn : Continues modules matters stack (n :: names) depth) (closed : n ∉ stack)
    (found : modules.graph n = some needed) : ∃ room, depth = room + 2 ∧
      (∃ path source routine, modules.Opens stack n needed path source routine) ∧
        Continues modules matters (n :: stack) needed room := by
  have longer := goesOn.chain.cons closed found (goesOn.needs n List.mem_cons_self)
  have deeper := goesOn.fits.bounded _ longer
  have limit_lt := goesOn.fits.limit_lt
  have enough := goesOn.enough
  rw [List.length_cons] at deeper
  have wide : 2 * nestingLimit ≤ stackLimit := by decide
  refine ⟨depth - 2, by omega, modules.exists_opens found deeper (by omega), goesOn.fits, longer,
    ModuleGraph.Chain.needs_head found, ?_, ?_⟩
  · intro m inside x reaches
    exact goesOn.matter n List.mem_cons_self x (reaches.head ⟨needed, found, inside⟩)
  · rw [List.length_cons]
    omega

end Continues

namespace ModuleGraph.Search

variable {names : List String} {failure : Option ModuleError} {depth : Nat}

/-- Bodies do what the search of their graph does. -/
theorem completes (search : modules.graph.Search stack done names failure completed started)
    (goesOn : Continues modules matters stack names depth) :
    Completes modules matters (depth + 1) stack done names failure completed started := by
  induction search generalizing depth with
  | nil => exact .nil
  | finished present rest ih =>
    have rest := ih goesOn.tail
    simpa using Completes.cons goesOn.short goesOn.head (.finished goesOn.head present) present rest
  | cycle absent open_ => exact .stop goesOn.short (.cycle goesOn.head absent open_)
  | notFound absent closed nowhere =>
    exact .stop goesOn.short (.notFound goesOn.head absent closed nowhere)
  | failed absent closed found body ih =>
    obtain ⟨room, rfl, ⟨path, source, routine, opens⟩, inner⟩ := goesOn.inner closed found
    exact .stop goesOn.short (.failed inner.deep goesOn.head absent closed opens (ih inner))
  | loaded absent closed found body rest ihBody ihRest =>
    obtain ⟨room, rfl, ⟨path, source, routine, opens⟩, inner⟩ := goesOn.inner closed found
    have fresh := body.not_completed List.mem_cons_self
    have first := Answers.loaded inner.deep goesOn.head absent closed opens fresh (ihBody inner)
    exact .cons goesOn.short goesOn.head first List.mem_cons_self (ihRest goesOn.tail)

/-- A resolver answers what the search for a name says. -/
theorem answers (search : modules.graph.Search stack done [n] failure completed started)
    (goesOn : Continues modules matters stack [n] depth) :
    Answers modules matters (Calls.callAt depth) stack done n failure completed started := by
  cases search with
  | finished present rest =>
    cases rest
    exact .finished goesOn.head present
  | cycle absent open_ => exact .cycle goesOn.head absent open_
  | notFound absent closed nowhere => exact .notFound goesOn.head absent closed nowhere
  | failed absent closed found body =>
    obtain ⟨room, rfl, ⟨path, source, routine, opens⟩, inner⟩ := goesOn.inner closed found
    exact .failed inner.deep goesOn.head absent closed opens (body.completes inner)
  | loaded absent closed found body rest =>
    cases rest
    obtain ⟨room, rfl, ⟨path, source, routine, opens⟩, inner⟩ := goesOn.inner closed found
    have fresh := body.not_completed List.mem_cons_self
    simpa using Answers.loaded inner.deep goesOn.head absent closed opens fresh (body.completes inner)

end ModuleGraph.Search

end

end ScriptHost
