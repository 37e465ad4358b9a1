import ScriptHost.Proofs.Outcome
import ScriptHost.Proofs.InterpretedCalls

/-!
# Marks of loads in progress

A resolver marks a name while it loads it.  The mark goes when the load ends with a module or with
an error, but a panic passes by the step that takes it away.  So a mark stands for a load that is in
progress or for one that a panic cut short, and for nothing else.
-/

namespace ScriptHost

open MachineM

/-- A load of a name by a resolver. -/
structure Load where
  resolver : Nat
  name : String
deriving DecidableEq

namespace Load

/-- The names of the loads that one resolver makes. -/
def namesOf (r : Nat) (loads : List Load) : List String :=
  (loads.filter (·.resolver = r)).map (·.name)

@[simp]
theorem namesOf_append (r : Nat) (first second : List Load) :
    namesOf r (first ++ second) = namesOf r first ++ namesOf r second := by
  simp [namesOf]

theorem namesOf_self (load : Load) : namesOf load.resolver [load] = [load.name] := by
  simp [namesOf]

theorem namesOf_other {load : Load} {r : Nat} (other : load.resolver ≠ r) :
    namesOf r [load] = [] := by
  simp [namesOf, other]

@[simp]
theorem mem_namesOf {r : Nat} {name : String} {loads : List Load} :
    name ∈ namesOf r loads ↔ ⟨r, name⟩ ∈ loads := by
  constructor
  · intro inside
    obtain ⟨load, found, rfl⟩ := List.mem_map.1 inside
    obtain ⟨inside, same⟩ := List.mem_filter.1 found
    simp only [decide_eq_true_eq] at same
    rw [← same]
    exact inside
  · intro inside
    exact List.mem_map.2 ⟨_, List.mem_filter.2 ⟨inside, by simp⟩, rfl⟩

end Load

namespace Machine

/-- The names that a resolver holds as being loaded. -/
def marks (s : Machine) (r : Nat) : List String := (s.resolvers[r]?.getD default).loading

def mark (s : Machine) (load : Load) : Machine :=
  { s with resolvers := s.resolvers.modify load.resolver fun resolver =>
      { resolver with loading := load.name :: resolver.loading } }

def unmark (s : Machine) (load : Load) : Machine :=
  { s with resolvers := s.resolvers.modify load.resolver fun resolver =>
      { resolver with loading := resolver.loading.erase load.name } }

variable {s t : Machine} {load : Load} {r : Nat}

@[simp]
theorem size_mark : (s.mark load).resolvers.size = s.resolvers.size := by
  simp [mark]

@[simp]
theorem size_unmark : (s.unmark load).resolvers.size = s.resolvers.size := by
  simp [unmark]

theorem marks_mark_self (known : load.resolver < s.resolvers.size) :
    (s.mark load).marks load.resolver = load.name :: s.marks load.resolver := by
  simp only [marks, mark, Array.getElem?_modify, if_pos, Array.getElem?_eq_getElem known]
  rfl

theorem marks_mark_other (other : load.resolver ≠ r) : (s.mark load).marks r = s.marks r := by
  simp [marks, mark, other, Array.getElem?_modify]

theorem marks_unmark_self :
    (s.unmark load).marks load.resolver = (s.marks load.resolver).erase load.name := by
  simp only [marks, unmark, Array.getElem?_modify, if_pos]
  cases s.resolvers[load.resolver]? with
  | none => rfl
  | some resolver => rfl

theorem marks_unmark_other (other : load.resolver ≠ r) : (s.unmark load).marks r = s.marks r := by
  simp [marks, unmark, other, Array.getElem?_modify]

/-- An elementary change takes no mark away and adds none. -/
theorem Change.marks (change : s.Change t) (known : r < s.resolvers.size) :
    r < t.resolvers.size ∧ t.marks r = s.marks r := by
  cases change with
  | newResolver resolver idle =>
    refine ⟨by simpa using Nat.lt_succ_of_lt known, ?_⟩
    simp [Machine.marks, Array.getElem?_push, Nat.ne_of_lt known]
  | resolver other f keeps =>
    refine ⟨by simpa using known, ?_⟩
    by_cases same : other = r
    · simp only [Machine.marks, Array.getElem?_modify, if_pos same,
        Array.getElem?_eq_getElem known]
      exact keeps _
    · simp [Machine.marks, Array.getElem?_modify, same]
  | _ => exact ⟨known, rfl⟩

end Machine

/-! ## One load -/

/-- What a load makes of the run of its loader: a panic goes on at once, and the mark stays. -/
def Load.settle (load : Load) :
    Except (Stop ModuleError) Value × Machine → Except (Stop ModuleError) Value × Machine
  | (.error (.panic text), t) => (.error (.panic text), t)
  | (.error .endless, t) => (.error .endless, t)
  | (result, t) => (result, t.unmark load)

namespace Resolver

variable {call : Caller} {s : Machine}

theorem runOn_get (r : Nat) (s : Machine) :
    (get r).runOn s = (.ok (s.resolvers[r]?.getD default), s) := rfl

theorem loadOnce_marked (load : Load) (marked : load.name ∈ s.marks load.resolver) :
    (loadOnce call load.resolver load.name).runOn s = (.error (.error (.cycle load.name)), s) := by
  have refused : (s.resolvers[load.resolver]?.getD default).loading.contains load.name = true := by
    simpa [Machine.marks] using marked
  unfold loadOnce
  rw [runOn_bind_ok (runOn_get _ s), if_pos refused]
  rfl

theorem loadOnce_free (load : Load) (free : load.name ∉ s.marks load.resolver) :
    (loadOnce call load.resolver load.name).runOn s =
      load.settle ((Resolver.load call load.resolver load.name).runOn (s.mark load)) := by
  have allowed :
      ¬ (s.resolvers[load.resolver]?.getD default).loading.contains load.name = true := by
    simpa [Machine.marks] using free
  have started : (modifyAt load.resolver fun resolver =>
      { resolver with loading := load.name :: resolver.loading } : ModuleM Unit).runOn s =
        (.ok (), s.mark load) := rfl
  unfold loadOnce
  rw [runOn_bind_ok (runOn_get _ s), if_neg allowed, runOn_bind_ok started, runOn_bind,
    runOn_attempt]
  rcases (Resolver.load call load.resolver load.name).runOn (s.mark load) with
    ⟨(_ | _ | _) | _, t⟩ <;> rfl

end Resolver

/-! ## Loads that a panic cuts short -/

/-- The loads that a panic cuts short in a run of a computation, the last one first. -/
inductive Cuts : {ε α : Type} → MachineM ε α → Machine → List Load → Prop where
  | pure {ε α : Type} {s : Machine} (a : α) : Cuts (Pure.pure a : MachineM ε α) s []
  | throw {ε α : Type} {s : Machine} (stop : Stop ε) :
      Cuts (MonadExcept.throw stop : MachineM ε α) s []
  | get {ε : Type} {s : Machine} : Cuts (MonadState.get : MachineM ε Machine) s []
  | change {ε α : Type} {s : Machine} {f : Machine → α × Machine} (changes : s.Change (f s).2) :
      Cuts (modifyGet f : MachineM ε α) s []
  | onObjects {ε α : Type} {s : Machine} (f : HostError → ε) (m : HostM α) :
      Cuts (MachineM.onObjects f m) s []
  | bind {ε α β : Type} {s t : Machine} {m : MachineM ε α} {f : α → MachineM ε β} {a : α}
      {before after : List Load} (first : Cuts m s before) (result : m.runOn s = (.ok a, t))
      (rest : Cuts (f a) t after) : Cuts (m >>= f) s (after ++ before)
  | stop {ε α β : Type} {s t : Machine} {m : MachineM ε α} {f : α → MachineM ε β} {stop : Stop ε}
      {cut : List Load} (first : Cuts m s cut) (result : m.runOn s = (.error stop, t)) :
      Cuts (m >>= f) s cut
  | attempt {ε ε' α : Type} {s : Machine} {m : MachineM ε α} {cut : List Load}
      (inner : Cuts m s cut) : Cuts (MachineM.attempt m : MachineM ε' (Except ε α)) s cut
  | mapError {ε ε' α : Type} {s : Machine} {m : MachineM ε α} {cut : List Load} (f : ε → ε')
      (inner : Cuts m s cut) : Cuts (MachineM.mapError f m) s cut
  | andThen {ε α : Type} {s : Machine} {m : MachineM ε α} {f : Machine → Machine}
      {cut : List Load} (inner : Cuts m s cut) (changes : ∀ s : Machine, s.Change (f s)) :
      Cuts (MachineM.andThen m (modify f)) s cut
  | ofHost {α : Type} {s : Machine} {m : MachineM ScriptError α} {cut : List Load}
      (inner : Cuts m s cut) : Cuts (ScriptM.ofHost m) s cut
  | refused {call : Caller} {s : Machine} (load : Load)
      (marked : load.name ∈ s.marks load.resolver) :
      Cuts (Resolver.loadOnce call load.resolver load.name) s []
  | ended {call : Caller} {s : Machine} {cut : List Load} (load : Load)
      (free : load.name ∉ s.marks load.resolver)
      (inner : Cuts (Resolver.load call load.resolver load.name) (s.mark load) cut)
      (ends : ∀ text, ((Resolver.load call load.resolver load.name).runOn (s.mark load)).1 ≠
        .error (.panic text)) :
      Cuts (Resolver.loadOnce call load.resolver load.name) s cut
  | unwound {call : Caller} {s : Machine} {cut : List Load} {text : String} (load : Load)
      (free : load.name ∉ s.marks load.resolver)
      (inner : Cuts (Resolver.load call load.resolver load.name) (s.mark load) cut)
      (panics : ((Resolver.load call load.resolver load.name).runOn (s.mark load)).1 =
        .error (.panic text)) :
      Cuts (Resolver.loadOnce call load.resolver load.name) s (cut ++ [load])

namespace Cuts

variable {ε α : Type} {m : MachineM ε α} {s : Machine} {cut : List Load} {r : Nat}

/-- What a computation that ends leaves of the marks of a resolver. -/
structure Account (r : Nat) (cut : List Load) (s t : Machine) : Prop where
  known : r < t.resolvers.size
  marks : t.marks r = Load.namesOf r cut ++ s.marks r
  distinct : (t.marks r).Nodup

theorem Account.ofChange {t : Machine} (known : r < s.resolvers.size)
    (distinct : (s.marks r).Nodup) (change : s.Change t) : Account r [] s t where
  known := (change.marks known).1
  marks := (change.marks known).2
  distinct := by
    rw [(change.marks known).2]
    exact distinct

theorem Account.trans {t u : Machine} {before after : List Load} (first : Account r before s t)
    (second : Account r after t u) : Account r (after ++ before) s u where
  known := second.known
  marks := by rw [second.marks, first.marks, Load.namesOf_append, List.append_assoc]
  distinct := second.distinct

theorem Account.change {t u : Machine} (first : Account r cut s t) (change : t.Change u) :
    Account r cut s u := first.trans (.ofChange first.known first.distinct change)

/-- A load starts with one name more than it found. -/
theorem distinct_mark {load : Load} (known : r < s.resolvers.size) (distinct : (s.marks r).Nodup)
    (free : load.name ∉ s.marks load.resolver) : ((s.mark load).marks r).Nodup := by
  by_cases own : load.resolver = r
  · subst own
    rw [Machine.marks_mark_self known]
    exact List.nodup_cons.2 ⟨free, distinct⟩
  · rw [Machine.marks_mark_other own]
    exact distinct

/-- A load that ends takes its own mark away and leaves those of the loads cut short inside it. -/
theorem Account.ended {load : Load} {t : Machine} (known : r < s.resolvers.size)
    (inner : Account r cut (s.mark load) t) : Account r cut s (t.unmark load) := by
  have left : (t.unmark load).marks r = Load.namesOf r cut ++ s.marks r := by
    by_cases own : load.resolver = r
    · subst own
      have marks := inner.marks
      rw [Machine.marks_mark_self known] at marks
      have fresh : load.name ∉ Load.namesOf load.resolver cut := by
        have distinct := inner.distinct
        rw [marks, List.nodup_append] at distinct
        exact fun inside => distinct.2.2 _ inside _ List.mem_cons_self rfl
      rw [Machine.marks_unmark_self, marks, List.erase_append_right _ fresh, List.erase_cons_head]
    · rw [Machine.marks_unmark_other own, inner.marks, Machine.marks_mark_other own]
  refine ⟨by simpa using inner.known, left, ?_⟩
  have sub : ((t.unmark load).marks r).Sublist (t.marks r) := by
    by_cases own : load.resolver = r
    · subst own
      rw [Machine.marks_unmark_self]
      exact List.erase_sublist
    · simp only [Machine.marks_unmark_other own, List.Sublist.refl]
  exact inner.distinct.sublist sub

/-- A load that a panic cuts short leaves its own mark as well. -/
theorem Account.unwound {load : Load} {t : Machine} (known : r < s.resolvers.size)
    (inner : Account r cut (s.mark load) t) : Account r (cut ++ [load]) s t := by
  refine ⟨inner.known, ?_, inner.distinct⟩
  rw [inner.marks, Load.namesOf_append, List.append_assoc]
  by_cases own : load.resolver = r
  · subst own
    rw [Machine.marks_mark_self known, Load.namesOf_self]
    rfl
  · rw [Machine.marks_mark_other own, Load.namesOf_other own]
    rfl

/-- A failure of the host becomes a value for scripts, and nothing else changes. -/
theorem ofHost_change (m : MachineM ScriptError α) (s : Machine) :
    ((m.runOn s).2).Change ((ScriptM.ofHost m).runOn s).2 ∧
      (((m.runOn s).1 = .error .endless) → ((ScriptM.ofHost m).runOn s).1 = .error .endless) := by
  rw [ScriptM.runOn_ofHost]
  rcases m.runOn s with ⟨(_ | _ | _) | _, t⟩
  · exact ⟨.newFault _, nofun⟩
  · exact ⟨.newFault _, nofun⟩
  · exact ⟨.none, fun _ => rfl⟩
  · exact ⟨.none, nofun⟩

/-- A computation that ends adds the marks of the loads that were cut short to those it found. -/
theorem account (cuts : Cuts m s cut) (known : r < s.resolvers.size)
    (distinct : (s.marks r).Nodup) (ends : (m.runOn s).1 ≠ .error .endless) :
    Account r cut s (m.runOn s).2 := by
  induction cuts with
  | pure _ | throw _ | get => exact .ofChange known distinct .none
  | change changes => exact .ofChange known distinct changes
  | onObjects f m =>
    rw [runOn_onObjects]
    exact .ofChange known distinct (.objects _)
  | bind first result rest ihFirst ihRest =>
    rw [runOn_bind_ok result] at ends ⊢
    have here := ihFirst known distinct (by simp [result])
    rw [result] at here
    exact here.trans (ihRest here.known here.distinct ends)
  | stop first result ih =>
    rw [runOn_bind_stop result] at ends ⊢
    have here := ih known distinct (by simpa [result] using ends)
    rwa [result] at here
  | @attempt _ _ _ s m _ inner ih =>
    rw [runOn_attempt] at ends ⊢
    have here := ih known distinct
    generalize m.runOn s = outcome at here ends ⊢
    rcases outcome with ⟨(_ | _ | _) | _, t⟩
    · exact here nofun
    · exact here nofun
    · exact absurd rfl ends
    · exact here nofun
  | @mapError _ _ _ s m _ f inner ih =>
    rw [runOn_mapError] at ends ⊢
    refine ih known distinct fun endless => ends ?_
    rw [endless]
    rfl
  | andThen inner changes ih =>
    rw [runOn_andThen] at ends ⊢
    exact (ih known distinct ends).change (changes _)
  | ofHost inner ih =>
    obtain ⟨change, endless⟩ := ofHost_change _ _
    exact (ih known distinct fun never => ends (endless never)).change change
  | refused load marked =>
    rw [Resolver.loadOnce_marked load marked]
    exact .ofChange known distinct .none
  | @ended call s cut load free inner finishes ih =>
    have here := ih (by simpa using known) (distinct_mark known distinct free)
    rw [Resolver.loadOnce_free load free] at ends ⊢
    generalize (Resolver.load call load.resolver load.name).runOn (s.mark load) = outcome
      at here finishes ends ⊢
    rcases outcome with ⟨(_ | text | _) | _, t⟩
    · exact (here nofun).ended known
    · exact absurd rfl (finishes text)
    · exact absurd rfl ends
    · exact (here nofun).ended known
  | @unwound call s cut text load free inner panics ih =>
    have here := ih (by simpa using known) (distinct_mark known distinct free)
    rw [Resolver.loadOnce_free load free]
    generalize (Resolver.load call load.resolver load.name).runOn (s.mark load) = outcome
      at here panics ⊢
    rcases outcome with ⟨result, t⟩
    obtain rfl : result = .error (.panic text) := panics
    exact (here nofun).unwound known

end Cuts

/-- Runs of computations of scripts have their loads cut short, if those of their calls have. -/
theorem Scripted.cuts {call : Caller} {ε α : Type} {m : MachineM ε α} (scripted : Scripted call m)
    (calls : ∀ site f args s, ∃ cut, Cuts (call site f args) s cut) (s : Machine) :
    ∃ cut, Cuts m s cut := by
  induction scripted generalizing s with
  | pure a => exact ⟨_, .pure a⟩
  | throw stop => exact ⟨_, .throw stop⟩
  | get => exact ⟨_, .get⟩
  | change changes => exact ⟨_, .change (changes s)⟩
  | onObjects f m => exact ⟨_, .onObjects f m⟩
  | @bind _ _ _ m f first rest ihFirst ihRest =>
    obtain ⟨before, here⟩ := ihFirst s
    rcases result : m.runOn s with ⟨stop | a, t⟩
    · exact ⟨_, .stop here result⟩
    · obtain ⟨after, onward⟩ := ihRest a t
      exact ⟨_, .bind here result onward⟩
  | attempt inner ih =>
    obtain ⟨cut, here⟩ := ih s
    exact ⟨_, .attempt here⟩
  | mapError f inner ih =>
    obtain ⟨cut, here⟩ := ih s
    exact ⟨_, .mapError f here⟩
  | andThen inner changes ih =>
    obtain ⟨cut, here⟩ := ih s
    exact ⟨_, .andThen here changes⟩
  | ofHost inner ih =>
    obtain ⟨cut, here⟩ := ih s
    exact ⟨_, .ofHost here⟩
  | call site f args => exact calls site f args s
  | @loadOnce r name inner ih =>
    by_cases marked : name ∈ s.marks r
    · exact ⟨_, .refused ⟨r, name⟩ marked⟩
    · obtain ⟨cut, here⟩ := ih (s.mark ⟨r, name⟩)
      by_cases panics : ∃ text,
          ((Resolver.load call r name).runOn (s.mark ⟨r, name⟩)).1 = .error (.panic text)
      · obtain ⟨text, panics⟩ := panics
        exact ⟨_, .unwound ⟨r, name⟩ marked here panics⟩
      · exact ⟨_, .ended ⟨r, name⟩ marked here fun text ended => panics ⟨text, ended⟩⟩

/-- Calls inside each other, by how much room is left for them. -/
theorem Calls.callAt_cuts (depth : Nat) (site : CallSite) (f : Value) (args : List Value)
    (s : Machine) : ∃ cut, Cuts (callAt depth site f args) s cut := by
  induction depth generalizing site f args s with
  | zero =>
    have overflow : Scripted noCalls (callAt 0 site f args) :=
      (ScriptM.raise_interpreted _).scripted
    exact overflow.cuts (fun _ _ _ _ => ⟨_, .throw _⟩) s
  | succ depth ih => exact (callAt_interpreted depth site f args).scripted.cuts ih s

/-- Every computation of scripts, with what it calls, has its loads that panics cut short. -/
theorem exists_cuts {ε α : Type} {m : MachineM ε α} (scripted : Scripted ScriptHost.call m)
    (s : Machine) : ∃ cut, Cuts m s cut :=
  scripted.cuts (Calls.callAt_cuts ScriptM.stackLimit) s

end ScriptHost
