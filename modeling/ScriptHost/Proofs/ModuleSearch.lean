import Mathlib.Data.List.Chain
import Mathlib.Data.List.Nodup
import Mathlib.Data.List.Perm.Subperm
import Mathlib.Logic.Relation
import ScriptHost.Fault

/-!
# Searching a graph of modules

Bodies that require one another are run depth first.  A search keeps the names whose loads are in
progress and those that are finished.  It fails at the first name that has no module or that is in
progress, and what was finished before that stays so.
-/

namespace ScriptHost

/-- What a failed load was caused by, behind the loads that passed it on. -/
def ModuleError.cause : ModuleError → ModuleError
  | .load _ (.loading e) => e.cause
  | e => e

/-- The names that the body of each module requires, in order; other names have no module. -/
abbrev ModuleGraph := String → Option (List String)

namespace ModuleGraph

variable (graph : ModuleGraph)

def Needs (a b : String) : Prop := ∃ names, graph a = some names ∧ b ∈ names

def Reaches : String → String → Prop := Relation.ReflTransGen graph.Needs

def OnCycle (m : String) : Prop := Relation.TransGen graph.Needs m m

/-- All that a name reaches has a module and is on no cycle. -/
def Loadable (n : String) : Prop := ∀ m, graph.Reaches n m → graph m ≠ none ∧ ¬ graph.OnCycle m

/--
A search for names in order, given those in progress and those that are finished.  It has its
failure, the names whose bodies it completes, the last one first, and those whose bodies it starts.
-/
inductive Search : List String → List String → List String → Option ModuleError → List String →
    List String → Prop where
  | nil {stack done : List String} : Search stack done [] none [] []
  | finished {stack done names completed started : List String} {n : String}
      {failure : Option ModuleError} (present : n ∈ done)
      (rest : Search stack done names failure completed started) :
      Search stack done (n :: names) failure completed started
  | cycle {stack done names : List String} {n : String} (absent : n ∉ done) (open_ : n ∈ stack) :
      Search stack done (n :: names) (some (.cycle n)) [] []
  | notFound {stack done names : List String} {n : String} (absent : n ∉ done)
      (closed : n ∉ stack) (nowhere : graph n = none) :
      Search stack done (n :: names) (some (.notFound n)) [] []
  | failed {stack done names needed completed started : List String} {n : String} {e : ModuleError}
      (absent : n ∉ done) (closed : n ∉ stack) (found : graph n = some needed)
      (body : Search (n :: stack) done needed (some e) completed started) :
      Search stack done (n :: names) (some (.load n (.loading e))) completed (n :: started)
  | loaded {stack done names needed completed completed' started started' : List String}
      {n : String} {failure : Option ModuleError} (absent : n ∉ done) (closed : n ∉ stack)
      (found : graph n = some needed)
      (body : Search (n :: stack) done needed none completed started)
      (rest : Search stack (n :: completed ++ done) names failure completed' started') :
      Search stack done (n :: names) failure (completed' ++ n :: completed)
        (n :: started ++ started')

/-- Finished names, each of which was finished after those that it needs. -/
inductive Settled : List String → Prop where
  | nil : Settled []
  | cons {n : String} {needed done : List String} (found : graph n = some needed)
      (needs : ∀ m ∈ needed, m ∈ done) (absent : n ∉ done) (rest : Settled done) :
      Settled (n :: done)

variable {graph}

namespace Settled

variable {done : List String} {n m : String}

theorem needs_mem (settled : graph.Settled done) (inside : n ∈ done) (needs : graph.Needs n m) :
    m ∈ done := by
  induction settled with
  | nil => cases inside
  | cons found covered absent rest ih =>
    rcases List.mem_cons.1 inside with rfl | inside
    · obtain ⟨needed, same, among⟩ := needs
      rw [found] at same
      cases same
      exact List.mem_cons_of_mem _ (covered m among)
    · exact List.mem_cons_of_mem _ (ih inside)

theorem reaches_mem (settled : graph.Settled done) (inside : n ∈ done)
    (reaches : graph.Reaches n m) : m ∈ done := by
  induction reaches with
  | refl => exact inside
  | tail _ needs ih => exact settled.needs_mem ih needs

theorem not_onCycle (settled : graph.Settled done) (inside : n ∈ done) : ¬ graph.OnCycle n := by
  intro cycle
  induction settled with
  | nil => cases inside
  | @cons first needed done found covered absent rest ih =>
    rcases List.mem_cons.1 inside with rfl | inside
    · obtain ⟨m, needs, back⟩ := Relation.TransGen.head'_iff.1 cycle
      obtain ⟨names, same, among⟩ := needs
      rw [found] at same
      cases same
      exact absent (rest.reaches_mem (covered m among) back)
    · exact ih inside

theorem found (settled : graph.Settled done) (inside : n ∈ done) : graph n ≠ none := by
  induction settled with
  | nil => cases inside
  | cons found _ _ _ ih =>
    rcases List.mem_cons.1 inside with rfl | inside
    · simp [found]
    · exact ih inside

theorem loadable (settled : graph.Settled done) (inside : n ∈ done) : graph.Loadable n :=
  fun _ reaches =>
    ⟨settled.found (settled.reaches_mem inside reaches),
      settled.not_onCycle (settled.reaches_mem inside reaches)⟩

end Settled

namespace Search

variable {stack done names completed started : List String} {failure : Option ModuleError}

/-- A body in progress is not completed by what it requires. -/
theorem not_completed (search : graph.Search stack done names failure completed started)
    {n : String} (open_ : n ∈ stack) : n ∉ completed := by
  induction search with
  | nil | cycle _ _ | notFound _ _ _ => exact List.not_mem_nil
  | finished _ _ ih => exact ih open_
  | failed _ _ _ _ ih => exact ih (List.mem_cons_of_mem _ open_)
  | loaded absent closed found body rest ihBody ihRest =>
    have other := ihBody (List.mem_cons_of_mem _ open_)
    have further := ihRest open_
    rw [List.mem_append, List.mem_cons]
    rintro (inside | rfl | inside)
    · exact further inside
    · exact closed open_
    · exact other inside

/-- A name that is finished is not completed again. -/
theorem not_completed_again (search : graph.Search stack done names failure completed started)
    {n : String} (present : n ∈ done) : n ∉ completed := by
  induction search with
  | nil | cycle _ _ | notFound _ _ _ => exact List.not_mem_nil
  | finished _ _ ih => exact ih present
  | failed _ _ _ _ ih => exact ih present
  | loaded absent closed found body rest ihBody ihRest =>
    have other := ihBody present
    have further := ihRest (List.mem_append_right _ present)
    rw [List.mem_append, List.mem_cons]
    rintro (inside | rfl | inside)
    · exact further inside
    · exact absent present
    · exact other inside

/-- Without a failure all names are finished. -/
theorem names_mem (search : graph.Search stack done names none completed started) :
    ∀ n ∈ names, n ∈ completed ++ done := by
  generalize none_ : none = failure at search
  induction search with
  | nil => simp
  | finished present rest ih =>
    rintro n inside
    rcases List.mem_cons.1 inside with rfl | inside
    · exact List.mem_append_right _ present
    · exact ih none_ n inside
  | cycle _ _ | notFound _ _ _ | failed _ _ _ _ _ => cases none_
  | loaded absent closed found body rest ihBody ihRest =>
    rintro n inside
    rcases List.mem_cons.1 inside with rfl | inside
    · simp
    · have later := ihRest none_ n inside
      simpa [List.append_assoc] using later

/-- What is finished stays settled, failure or not. -/
theorem settled (search : graph.Search stack done names failure completed started)
    (before : graph.Settled done) : graph.Settled (completed ++ done) := by
  induction search with
  | nil | cycle _ _ | notFound _ _ _ => exact before
  | finished _ _ ih => exact ih before
  | failed _ _ _ _ ih => exact ih before
  | @loaded _ done _ _ completed _ _ _ n _ absent closed found body rest ihBody ihRest =>
    have fresh : n ∉ completed ++ done := by
      rw [List.mem_append]
      exact not_or.2 ⟨body.not_completed List.mem_cons_self, absent⟩
    have here : graph.Settled (n :: completed ++ done) :=
      .cons found body.names_mem fresh (ihBody before)
    simpa [List.append_assoc] using ihRest here

/-- What a body requires lies below all that is in progress. -/
theorem needs_below {n : String} {needed : List String} (found : graph n = some needed)
    (above : ∀ a ∈ stack, Relation.TransGen graph.Needs a n) :
    ∀ a ∈ n :: stack, ∀ m ∈ needed, Relation.TransGen graph.Needs a m := by
  intro a open_ m inside
  have needs : graph.Needs n m := ⟨needed, found, inside⟩
  rcases List.mem_cons.1 open_ with rfl | open_
  · exact .single needs
  · exact (above a open_).tail needs

/-- A failure comes from a name without a module or from one on a cycle, which a name reaches. -/
theorem cause (search : graph.Search stack done names failure completed started)
    {e : ModuleError} (failed : failure = some e)
    (above : ∀ a ∈ stack, ∀ n ∈ names, Relation.TransGen graph.Needs a n) :
    ∃ n ∈ names, ∃ m, graph.Reaches n m ∧
      (e.cause = .notFound m ∧ graph m = none ∨ e.cause = .cycle m ∧ graph.OnCycle m) := by
  induction search generalizing e with
  | nil => cases failed
  | finished present rest ih =>
    obtain ⟨n, inside, cause⟩ := ih failed fun a open_ n inside => above a open_ n (.tail _ inside)
    exact ⟨n, List.mem_cons_of_mem _ inside, cause⟩
  | @cycle _ _ _ n absent open_ =>
    cases failed
    exact ⟨n, List.mem_cons_self, n, .refl, .inr ⟨rfl, above n open_ n List.mem_cons_self⟩⟩
  | @notFound _ _ _ n absent closed nowhere =>
    cases failed
    exact ⟨n, List.mem_cons_self, n, .refl, .inl ⟨rfl, nowhere⟩⟩
  | @failed stack _ _ needed _ _ n e' absent closed found body ih =>
    cases failed
    have below := needs_below found fun a open_ => above a open_ n List.mem_cons_self
    obtain ⟨b, inside, m, reaches, cause⟩ := ih rfl below
    exact ⟨n, List.mem_cons_self, m, reaches.head ⟨needed, found, inside⟩, cause⟩
  | loaded absent closed found body rest ihBody ihRest =>
    obtain ⟨n, inside, cause⟩ :=
      ihRest failed fun a open_ n inside => above a open_ n (.tail _ inside)
    exact ⟨n, List.mem_cons_of_mem _ inside, cause⟩

/-- One name is loaded exactly if all that it reaches has a module and is on no cycle. -/
theorem none_iff_loadable {n : String} (settled : graph.Settled done)
    (search : graph.Search [] done [n] failure completed started) :
    failure = none ↔ graph.Loadable n := by
  constructor
  · rintro rfl
    exact (search.settled settled).loadable (search.names_mem n List.mem_cons_self)
  · intro loadable
    rcases failed : failure with _ | e
    · rfl
    · obtain ⟨n, inside, m, reaches, missing | cyclic⟩ := search.cause failed nofun
      · obtain rfl := List.mem_singleton.1 inside
        exact absurd missing.2 (loadable m reaches).1
      · obtain rfl := List.mem_singleton.1 inside
        exact absurd cyclic.2 (loadable m reaches).2

/-- The body of a loadable name is completed whenever it is started. -/
theorem count_started {m : String} (loadable : graph.Loadable m)
    (search : graph.Search stack done names failure completed started)
    (above : ∀ a ∈ stack, ∀ n ∈ names, Relation.TransGen graph.Needs a n) :
    started.count m = completed.count m := by
  induction search with
  | nil | cycle _ _ | notFound _ _ _ => rfl
  | finished present rest ih => exact ih fun a open_ n inside => above a open_ n (.tail _ inside)
  | @failed stack done _ needed completed started n e absent closed found body ih =>
    have below := needs_below found fun a open_ => above a open_ n List.mem_cons_self
    have other : n ≠ m := by
      rintro rfl
      obtain ⟨b, inside, c, reaches, missing | cyclic⟩ := body.cause rfl below
      · exact (loadable c (reaches.head ⟨needed, found, inside⟩)).1 missing.2
      · exact (loadable c (reaches.head ⟨needed, found, inside⟩)).2 cyclic.2
    rw [List.count_cons_of_ne other, ih below]
  | @loaded stack done _ needed completed completed' started started' n _ absent closed found body
      rest ihBody ihRest =>
    have below := needs_below found fun a open_ => above a open_ n List.mem_cons_self
    have beside := ihRest fun a open_ n inside => above a open_ n (.tail _ inside)
    rw [List.count_append, List.count_append, List.count_cons, List.count_cons, ihBody below,
      beside]
    omega

/-- Names are completed once. -/
theorem nodup_completed (search : graph.Search stack done names failure completed started) :
    completed.Nodup := by
  induction search with
  | nil | cycle _ _ | notFound _ _ _ => exact List.nodup_nil
  | finished _ _ ih => exact ih
  | failed _ _ _ _ ih => exact ih
  | loaded absent closed found body rest ihBody ihRest =>
    refine List.nodup_append.2 ⟨ihRest, List.nodup_cons.2 ⟨body.not_completed List.mem_cons_self,
      ihBody⟩, ?_⟩
    rintro a later b inside rfl
    exact rest.not_completed_again (List.mem_append_left _ inside) later

end Search

/-! ## Searches end -/

variable (graph) in
/-- Modules that require one another in a row, the last one first, all of them different. -/
structure Chain (names : List String) : Prop where
  needs : names.IsChain fun a b => graph.Needs b a
  found : ∀ n ∈ names, graph n ≠ none
  distinct : names.Nodup

namespace Chain

variable {stack needed : List String} {n : String}

theorem nil : graph.Chain [] := ⟨.nil, nofun, List.nodup_nil⟩

/-- What the last module requires makes a chain longer. -/
theorem cons (chain : graph.Chain stack) (closed : n ∉ stack) (found : graph n = some needed)
    (needs : ∀ a ∈ stack.head?, graph.Needs a n) : graph.Chain (n :: stack) where
  needs := List.isChain_cons.2 ⟨needs, chain.needs⟩
  found m inside := by
    rcases List.mem_cons.1 inside with rfl | inside
    · simp [found]
    · exact chain.found m inside
  distinct := List.nodup_cons.2 ⟨closed, chain.distinct⟩

/-- Where few names have a module, chains are short. -/
theorem length_le {modules : List String} (only : ∀ n, graph n ≠ none → n ∈ modules)
    (chain : graph.Chain stack) : stack.length ≤ modules.length :=
  (List.subperm_of_subset chain.distinct fun n inside => only n (chain.found n inside)).length_le

theorem needs_head (found : graph n = some needed) :
    ∀ m ∈ needed, ∀ a ∈ (n :: stack).head?, graph.Needs a m := by
  rintro m inside a ⟨⟩
  exact ⟨needed, found, inside⟩

end Chain

namespace Search

variable {stack : List String}

/-- A search for names ends if those for the bodies of the names do. -/
theorem exists_of_bodies (names : List String)
    (bodies : ∀ n ∈ names, n ∉ stack → ∀ needed, graph n = some needed → ∀ done,
      ∃ failure completed started, graph.Search (n :: stack) done needed failure completed started)
    (done : List String) :
    ∃ failure completed started, graph.Search stack done names failure completed started := by
  induction names generalizing done with
  | nil => exact ⟨_, _, _, .nil⟩
  | cons n names ih =>
    have onward := ih fun n inside => bodies n (.tail _ inside)
    by_cases present : n ∈ done
    · obtain ⟨_, _, _, rest⟩ := onward done
      exact ⟨_, _, _, .finished present rest⟩
    by_cases open_ : n ∈ stack
    · exact ⟨_, _, _, .cycle present open_⟩
    rcases found : graph n with _ | needed
    · exact ⟨_, _, _, .notFound present open_ found⟩
    obtain ⟨failure, completed, started, body⟩ := bodies n List.mem_cons_self open_ needed found done
    cases failure with
    | some e => exact ⟨_, _, _, .failed present open_ found body⟩
    | none =>
      obtain ⟨_, _, _, rest⟩ := onward (n :: completed ++ done)
      exact ⟨_, _, _, .loaded present open_ found body rest⟩

/-- Names in progress are a chain, so a search goes no deeper than chains do. -/
theorem exists_of_chain {limit : Nat} (bounded : ∀ chain, graph.Chain chain → chain.length ≤ limit)
    (room : Nat) (stack done names : List String) (enough : limit ≤ stack.length + room)
    (chain : graph.Chain stack) (needs : ∀ n ∈ names, ∀ a ∈ stack.head?, graph.Needs a n) :
    ∃ failure completed started, graph.Search stack done names failure completed started := by
  induction room generalizing stack done names with
  | zero =>
    refine exists_of_bodies names (fun n inside closed needed found _ => ?_) done
    have short := bounded _ (chain.cons closed found (needs n inside))
    rw [List.length_cons] at short
    omega
  | succ room ih =>
    refine exists_of_bodies names (fun n inside closed needed found done => ?_) done
    exact ih (n :: stack) done needed (by rw [List.length_cons]; omega)
      (chain.cons closed found (needs n inside)) (Chain.needs_head found)

end Search

/-! ## Rows of searches -/

variable (graph) in
/-- Searches for one name after the other, failed or not. -/
inductive Row : List String → List String → List (Option ModuleError) → List String →
    List String → Prop where
  | nil {done : List String} : Row done [] [] [] []
  | cons {done names completed completed' started started' : List String} {n : String}
      {failure : Option ModuleError} {failures : List (Option ModuleError)}
      (first : graph.Search [] done [n] failure completed started)
      (rest : Row (completed ++ done) names failures completed' started') :
      Row done (n :: names) (failure :: failures) (completed' ++ completed) (started ++ started')

namespace Row

variable {done names completed started : List String} {failures : List (Option ModuleError)}

theorem settled (row : graph.Row done names failures completed started)
    (before : graph.Settled done) : graph.Settled (completed ++ done) := by
  induction row with
  | nil => exact before
  | cons first rest ih => simpa [List.append_assoc] using ih (first.settled before)

theorem append {names' completed' started' : List String} {failures' : List (Option ModuleError)}
    (row : graph.Row done names failures completed started)
    (row' : graph.Row (completed ++ done) names' failures' completed' started') :
    graph.Row done (names ++ names') (failures ++ failures') (completed' ++ completed)
      (started ++ started') := by
  induction row with
  | nil => simpa using row'
  | cons first rest ih =>
    rw [List.append_assoc] at row'
    have onward := Row.cons first (ih row')
    simpa [List.append_assoc] using onward

/-- The body of a loadable name is completed whenever it is started. -/
theorem count_started (row : graph.Row done names failures completed started)
    {m : String} (loadable : graph.Loadable m) : started.count m = completed.count m := by
  induction row with
  | nil => rfl
  | cons first rest ih =>
    rw [List.count_append, List.count_append, first.count_started loadable nofun, ih, Nat.add_comm]

theorem not_completed_again (row : graph.Row done names failures completed started)
    {n : String} (present : n ∈ done) : n ∉ completed := by
  induction row with
  | nil => exact List.not_mem_nil
  | cons first rest ih =>
    rw [List.mem_append]
    exact not_or.2 ⟨ih (List.mem_append_right _ present), first.not_completed_again present⟩

theorem nodup_completed (row : graph.Row done names failures completed started) :
    completed.Nodup := by
  induction row with
  | nil => exact List.nodup_nil
  | cons first rest ih =>
    refine List.nodup_append.2 ⟨ih, first.nodup_completed, ?_⟩
    rintro a later b inside rfl
    exact rest.not_completed_again (List.mem_append_left _ inside) later

end Row

end ModuleGraph

end ScriptHost
