import ScriptHost.Proofs.Outcome
import ScriptHost.Proofs.Scripted

/-!
# What scripts cannot do to the machine

Scripts, and the functions of the host that they call, cannot choose another table of globals or
another resolver, and a resolver that keeps a cache goes on to keep it.  No table and no resolver is
ever gone.  This holds of every part that their computations are put together from.
-/

namespace ScriptHost

open MachineM

namespace Machine

/-- The cache that a resolver keeps. -/
def cacheOf (s : Machine) (r : Nat) : Option TableId :=
  (s.resolvers[r]?.getD default : Resolver).loaded

/-- The table of globals, the resolver behind `require`, and the caches of resolvers stay. -/
structure Keeps (s t : Machine) : Prop where
  globals : t.globals = s.globals
  installed : t.installed = s.installed
  caches : ∀ r, t.cacheOf r = s.cacheOf r

namespace Keeps

variable {s t u : Machine}

theorem refl (s : Machine) : s.Keeps s := ⟨rfl, rfl, fun _ => rfl⟩

theorem trans (first : s.Keeps t) (second : t.Keeps u) : s.Keeps u :=
  ⟨second.globals.trans first.globals, second.installed.trans first.installed,
    fun r => (second.caches r).trans (first.caches r)⟩

theorem symm (keeps : s.Keeps t) : t.Keeps s :=
  ⟨keeps.globals.symm, keeps.installed.symm, fun r => (keeps.caches r).symm⟩

/-- Settings of a resolver other than its cache may change. -/
theorem resolver (s : Machine) (r : Nat) {f : Resolver → Resolver}
    (keeps : ∀ x, (f x).loaded = x.loaded) :
    s.Keeps { s with resolvers := s.resolvers.modify r f } := by
  refine ⟨rfl, rfl, fun other => ?_⟩
  rw [cacheOf, cacheOf, Array.getElem?_modify]
  split
  · cases s.resolvers[other]? with
    | none => rfl
    | some x => exact keeps x
  · rfl

end Keeps

/-- A failure that may be received again and again: it is no panic that would go on. -/
def Settled (s : Machine) (index : Nat) : Prop :=
  index < s.faults.size ∧ ∀ text, s.faults[index]? ≠ some (.panic (some text))

/-- No table and no resolver goes, and failures that are settled stay so. -/
structure Grows (s t : Machine) : Prop where
  tables : s.tables.size ≤ t.tables.size
  resolvers : s.resolvers.size ≤ t.resolvers.size
  settled : ∀ index, s.Settled index → t.Settled index

namespace Grows

variable {s t u : Machine}

theorem refl (s : Machine) : s.Grows s := ⟨Nat.le_refl _, Nat.le_refl _, fun _ settled => settled⟩

theorem trans (first : s.Grows t) (second : t.Grows u) : s.Grows u :=
  ⟨Nat.le_trans first.tables second.tables, Nat.le_trans first.resolvers second.resolvers,
    fun index settled => second.settled index (first.settled index settled)⟩

theorem newFault (s : Machine) (f : Fault) : s.Grows { s with faults := s.faults.push f } := by
  refine ⟨Nat.le_refl _, Nat.le_refl _, fun index ⟨known, settled⟩ => ⟨?_, fun text => ?_⟩⟩
  · simpa using Nat.lt_succ_of_lt known
  · simpa [Array.getElem?_push, Nat.ne_of_lt known] using settled text

theorem spend (s : Machine) (index : Nat) :
    s.Grows { s with faults := s.faults.setIfInBounds index (.panic none) } := by
  refine ⟨Nat.le_refl _, Nat.le_refl _,
    fun other ⟨known, settled⟩ => ⟨by simpa using known, fun text => ?_⟩⟩
  rw [Array.getElem?_setIfInBounds]
  split
  · split
    · nofun
    · nofun
  · exact settled text

theorem ofChange (change : s.Change t) : s.Grows t := by
  cases change with
  | newTable t => exact ⟨by simp, Nat.le_refl _, fun _ settled => settled⟩
  | table id f => exact ⟨by simp, Nat.le_refl _, fun _ settled => settled⟩
  | newResolver resolver idle => exact ⟨Nat.le_refl _, by simp, fun _ settled => settled⟩
  | resolver r f keeps => exact ⟨Nat.le_refl _, by simp, fun _ settled => settled⟩
  | newFault f => exact .newFault s f
  | spend index => exact .spend s index
  | _ => exact ⟨Nat.le_refl _, Nat.le_refl _, fun _ settled => settled⟩

end Grows

/-- What any computation of scripts makes of a machine. -/
structure Onward (s t : Machine) : Prop extends s.Keeps t, s.Grows t

namespace Onward

variable {s t u : Machine}

theorem refl (s : Machine) : s.Onward s := ⟨.refl s, .refl s⟩

theorem trans (first : s.Onward t) (second : t.Onward u) : s.Onward u :=
  ⟨first.toKeeps.trans second.toKeeps, first.toGrows.trans second.toGrows⟩

theorem resolver (s : Machine) (r : Nat) {f : Resolver → Resolver}
    (keeps : ∀ x, (f x).loaded = x.loaded) :
    s.Onward { s with resolvers := s.resolvers.modify r f } :=
  ⟨.resolver s r keeps, Nat.le_refl _, by simp, fun _ settled => settled⟩

end Onward

end Machine

/-- A resolver that keeps a cache uses no other. -/
theorem Resolver.runOn_cache_of_cacheOf {call : Caller} {s : Machine} {r : Nat} {loaded : TableId}
    (cache : s.cacheOf r = some loaded) : (Resolver.cache call r).runOn s = (.ok loaded, s) := by
  have found : (Resolver.get r).runOn s = (.ok (s.resolvers[r]?.getD default), s) := rfl
  rw [Machine.cacheOf] at cache
  rw [Resolver.cache, runOn_bind_ok found, cache]
  rfl

/--
Computations of scripts, of the functions that they call, and of a host that works with a resolver.
A module is required as a whole, so that what a resolver enters can be told from what scripts do.
-/
inductive Interpreted (call : Caller) : {ε α : Type} → MachineM ε α → Prop where
  | pure {ε α : Type} (a : α) : Interpreted call (Pure.pure a : MachineM ε α)
  | throw {ε α : Type} (stop : Stop ε) : Interpreted call (MonadExcept.throw stop : MachineM ε α)
  | get {ε : Type} : Interpreted call (MonadState.get : MachineM ε Machine)
  | change {ε α : Type} {f : Machine → α × Machine} (changes : ∀ s : Machine, s.Change (f s).2)
      (keeps : ∀ s : Machine, s.Keeps (f s).2) : Interpreted call (modifyGet f : MachineM ε α)
  | onObjects {ε α : Type} (f : HostError → ε) (m : HostM α) :
      Interpreted call (MachineM.onObjects f m)
  | bind {ε α β : Type} {m : MachineM ε α} {f : α → MachineM ε β} (first : Interpreted call m)
      (rest : ∀ a, Interpreted call (f a)) : Interpreted call (m >>= f)
  | attempt {ε ε' α : Type} {m : MachineM ε α} (inner : Interpreted call m) :
      Interpreted call (MachineM.attempt m : MachineM ε' (Except ε α))
  | mapError {ε ε' α : Type} {m : MachineM ε α} (f : ε → ε') (inner : Interpreted call m) :
      Interpreted call (MachineM.mapError f m)
  | andThen {ε α : Type} {m : MachineM ε α} {f : Machine → Machine} (inner : Interpreted call m)
      (changes : ∀ s : Machine, s.Change (f s)) (keeps : ∀ s : Machine, s.Keeps (f s)) :
      Interpreted call (MachineM.andThen m (modify f))
  | ofHost {α : Type} {m : MachineM ScriptError α} (inner : Interpreted call m) :
      Interpreted call (ScriptM.ofHost m)
  | call (site : CallSite) (f : Value) (args : List Value) : Interpreted call (call site f args)
  | require {r : Nat} {name : String} (finds : Interpreted call (Resolver.cache call r))
      (looks : ∀ loaded, Interpreted call (Resolver.cached loaded name))
      (loads : Interpreted call (Resolver.load call r name))
      (sends : ∀ v, Interpreted call (ScriptM.send v : ModuleM Value))
      (enters : ∀ loaded v, Interpreted call (rawSet loaded (.text name) v : ModuleM Unit)) :
      Interpreted call (Resolver.require call r name)

namespace Interpreted

variable {call : Caller} {ε α β : Type}

theorem fail (e : ε) : Interpreted call (MachineM.fail e : MachineM ε α) := .throw _

theorem ite {c : Prop} [Decidable c] {m n : MachineM ε α} (first : Interpreted call m)
    (second : Interpreted call n) : Interpreted call (if c then m else n) := by
  split
  · exact first
  · exact second

/-- A step that is made under a condition only, before what follows in any case. -/
theorem guarded {c : Prop} [Decidable c] {m : MachineM ε Unit} {rest : Unit → MachineM ε β}
    (first : Interpreted call m) (next : Interpreted call (rest ())) :
    Interpreted call (if c then m >>= rest else rest ()) := ite (first.bind fun _ => next) next

theorem map {m : MachineM ε α} (f : α → β) (inner :
    Interpreted call m) : Interpreted call (f <$> m) := by
  rw [map_eq_pure_bind]
  exact inner.bind fun a => .pure (f a)

theorem discard {m : MachineM ε α} (inner : Interpreted call m) :
    Interpreted call (Functor.discard m) := inner.map _

theorem mapM {f : α → MachineM ε β} (each : ∀ a, Interpreted call (f a)) (items : List α) :
    Interpreted call (items.mapM f) := by
  induction items with
  | nil => exact .pure []
  | cons first rest ih =>
    rw [List.mapM_cons]
    exact (each first).bind fun _ => ih.bind fun _ => .pure _

theorem forM {f : α → MachineM ε Unit} (each : ∀ a, Interpreted call (f a)) (items : List α) :
    Interpreted call (items.forM f) := by
  induction items with
  | nil => exact .pure ()
  | cons first rest ih => exact (each first).bind fun _ => ih

/-! ## Parts of the machine -/

theorem newTable (t : Table) : Interpreted call (MachineM.newTable t : MachineM ε TableId) :=
  .change (fun _ => .newTable t) fun _ => ⟨rfl, rfl, fun _ => rfl⟩

theorem table (id : TableId) : Interpreted call (MachineM.table id : MachineM ε Table) :=
  .bind .get fun _ => .pure _

theorem modifyTable (id : TableId) (f : Table → Table) :
    Interpreted call (MachineM.modifyTable id f : MachineM ε Unit) :=
  .change (fun _ => .table id f) fun _ => ⟨rfl, rfl, fun _ => rfl⟩

theorem rawGet (id : TableId) (key : Value) :
    Interpreted call (MachineM.rawGet id key : MachineM ε Value) :=
  (table id).bind fun _ => guarded (modifyTable id _) (.pure _)

theorem rawLength (id : TableId) : Interpreted call (MachineM.rawLength id : MachineM ε Nat) :=
  (table id).bind fun _ => by
    split
    exact guarded (modifyTable id _) (.pure _)

theorem rawSet (id : TableId) (key v : Value) :
    Interpreted call (MachineM.rawSet id key v : MachineM ε Unit) := modifyTable id _

theorem newFunction (f : Function) : Interpreted call (MachineM.newFunction f : MachineM ε Value) :=
  .change (fun _ => .newFunction f) fun _ => ⟨rfl, rfl, fun _ => rfl⟩

theorem newNative (n : Native) : Interpreted call (MachineM.newNative n : MachineM ε Value) :=
  newFunction _

theorem function (id : FunctionId) :
    Interpreted call (MachineM.function id : MachineM ε Function) :=
  .bind .get fun _ => .pure _

theorem newCell (v : Value) : Interpreted call (MachineM.newCell v : MachineM ε Nat) :=
  .change (fun _ => .newCell v) fun _ => ⟨rfl, rfl, fun _ => rfl⟩

theorem cell (index : Nat) : Interpreted call (MachineM.cell index : MachineM ε Value) :=
  .bind .get fun _ => .pure _

theorem setCell (index : Nat) (v : Value) :
    Interpreted call (MachineM.setCell index v : MachineM ε Unit) :=
  .change (fun _ => .cell index v) fun _ => ⟨rfl, rfl, fun _ => rfl⟩

theorem newFault (f : Fault) : Interpreted call (MachineM.newFault f : MachineM ε Value) :=
  .change (fun _ => .newFault f) fun _ => ⟨rfl, rfl, fun _ => rfl⟩

theorem fault (index : Nat) : Interpreted call (MachineM.fault index : MachineM ε Fault) :=
  .bind .get fun _ => .pure _

theorem newThread (f : Value) : Interpreted call (MachineM.newThread f : MachineM ε Value) :=
  .change (fun _ => .newThread f) fun _ => ⟨rfl, rfl, fun _ => rfl⟩

/-- Nothing that scripts do is beyond the parts that all runs are put together from. -/
theorem scripted {m : MachineM ε α} (interpreted : Interpreted call m) : Scripted call m := by
  induction interpreted with
  | pure a => exact .pure a
  | throw stop => exact .throw stop
  | get => exact .get
  | change changes keeps => exact .change changes
  | onObjects f m => exact .onObjects f m
  | bind _ _ first rest => exact first.bind rest
  | attempt _ ih => exact ih.attempt
  | mapError f _ ih => exact ih.mapError f
  | andThen _ changes keeps ih => exact ih.andThen changes
  | ofHost _ ih => exact ih.ofHost
  | call site f args => exact .call site f args
  | require _ _ _ _ _ finds looks loads sends enters =>
    exact finds.bind fun loaded => (looks loaded).bind fun _ =>
      .ite (.pure _) <| (Scripted.loadOnce loads).bind fun v => .ite
        ((sends v).bind fun _ => (enters _ _).bind fun _ => .pure _) <|
        (looks loaded).bind fun _ => .ite (.pure _) <| (enters _ _).bind fun _ => .pure _

end Interpreted

/-! ## What stays in a run -/

/--
A computation after which the globals, the resolver and the caches are what they were, and nothing
is gone that others may hold on to.
-/
def Confined {ε α : Type} (m : MachineM ε α) : Prop := ∀ s : Machine, s.Onward (m.runOn s).2

namespace Confined

variable {ε ε' α β : Type} {m n : MachineM ε α}

theorem pure (a : α) : Confined (Pure.pure a : MachineM ε α) := fun s => .refl s

theorem fail (e : ε) : Confined (MachineM.fail e : MachineM ε α) := fun s => .refl s

theorem bind {f : α → MachineM ε β} (first : Confined m) (rest : ∀ a, Confined (f a)) :
    Confined (m >>= f) := fun s =>
  runOn_bind_trans .trans (first s) fun a t _ => rest a t

theorem ite {c : Prop} [Decidable c] (first : Confined m) (second : Confined n) :
    Confined (if c then m else n) := by
  split
  · exact first
  · exact second

theorem guarded {c : Prop} [Decidable c] {m : MachineM ε Unit} {rest : Unit → MachineM ε β}
    (first : Confined m) (next : Confined (rest ())) :
    Confined (if c then m >>= rest else rest ()) := ite (first.bind fun _ => next) next

theorem attempt (inner : Confined m) :
    Confined (MachineM.attempt m : MachineM ε' (Except ε α)) := by
  intro s
  have here := inner s
  rw [runOn_attempt]
  rcases result : m.runOn s with ⟨(_ | _ | _) | _, t⟩ <;> rw [result] at here <;> exact here

theorem mapError (f : ε → ε') (inner : Confined m) : Confined (MachineM.mapError f m) := by
  intro s
  rw [runOn_mapError]
  exact inner s

theorem ofHost {m : MachineM ScriptError α} (inner : Confined m) :
    Confined (ScriptM.ofHost m) := by
  intro s
  have here := inner s
  rw [ScriptM.runOn_ofHost]
  rcases result : m.runOn s with ⟨(_ | _ | _) | _, t⟩ <;> rw [result] at here
  · exact here.trans ⟨⟨rfl, rfl, fun _ => rfl⟩, .newFault _ _⟩
  · exact here.trans ⟨⟨rfl, rfl, fun _ => rfl⟩, .newFault _ _⟩
  · exact here
  · exact here

theorem modifyAt (r : Nat) {f : Resolver → Resolver} (keeps : ∀ x, (f x).loaded = x.loaded) :
    Confined (Resolver.modifyAt r f : MachineM ε Unit) := fun s => .resolver s r keeps

theorem loadOnce {call : Caller} {r : Nat} {name : String}
    (loads : Confined (Resolver.load call r name)) : Confined (Resolver.loadOnce call r name) := by
  refine bind (fun s => .refl s) fun resolver => guarded (fail _) ?_
  refine bind (modifyAt r fun _ => rfl) fun _ => bind loads.attempt fun result =>
    bind (modifyAt r fun _ => rfl) fun _ => ?_
  cases result with
  | ok v => exact pure v
  | error e => exact fail e

end Confined

/-- Computations of scripts are confined, if their calls are. -/
theorem Interpreted.confined {call : Caller} {ε α : Type} {m : MachineM ε α}
    (interpreted : Interpreted call m) (calls : ∀ site f args, Confined (call site f args)) :
    Confined m := by
  induction interpreted with
  | pure _ | throw _ | get => exact fun s => .refl s
  | change changes keeps => exact fun s => ⟨keeps s, .ofChange (changes s)⟩
  | onObjects f m =>
    intro s
    rw [runOn_onObjects]
    exact ⟨⟨rfl, rfl, fun _ => rfl⟩, .ofChange (.objects _)⟩
  | bind _ _ first rest => exact first.bind rest
  | attempt _ ih => exact ih.attempt
  | mapError f _ ih => exact ih.mapError f
  | andThen _ changes keeps ih =>
    intro s
    rw [runOn_andThen]
    exact (ih s).trans ⟨keeps _, .ofChange (changes _)⟩
  | ofHost _ ih => exact ih.ofHost
  | call site f args => exact calls site f args
  | require _ _ _ _ _ finds looks loads sends enters =>
    exact finds.bind fun loaded => (looks loaded).bind fun _ =>
      .ite (.pure _) <| loads.loadOnce.bind fun v => .ite
        ((sends v).bind fun _ => (enters _ _).bind fun _ => .pure _) <|
        (looks loaded).bind fun _ => .ite (.pure _) <| (enters _ _).bind fun _ => .pure _

/-- Stands for the calls of computations that make none. -/
def noCalls : Caller := fun _ _ _ => throw .endless

theorem Interpreted.confined_alone {ε α : Type} {m : MachineM ε α}
    (interpreted : Interpreted noCalls m) : Confined m :=
  interpreted.confined fun _ _ _ s => .refl s

end ScriptHost
