import ScriptHost.Proofs.Marks

/-!
# Sessions

A session makes one computation of scripts after the other.  Between them nothing is in progress, so
the marks of a resolver show which of its loads were cut short by a panic.
-/

namespace ScriptHost

open MachineM

/-! ## Points inside a run -/

/--
A point inside a run of a computation: the loads in progress there, the last one first, those that
a panic cut short before, and the machine.
-/
inductive Within : {ε α : Type} → MachineM ε α → Machine → List Load → List Load → Machine → Prop
    where
  | here {ε α : Type} {s : Machine} (m : MachineM ε α) : Within m s [] [] s
  | first {ε α β : Type} {s t : Machine} {m : MachineM ε α} {running cut : List Load}
      (f : α → MachineM ε β) (inside : Within m s running cut t) : Within (m >>= f) s running cut t
  | rest {ε α β : Type} {s t u : Machine} {m : MachineM ε α} {f : α → MachineM ε β} {a : α}
      {before running cut : List Load} (first : Cuts m s before)
      (result : m.runOn s = (.ok a, t)) (inside : Within (f a) t running cut u) :
      Within (m >>= f) s running (cut ++ before) u
  | attempt {ε ε' α : Type} {s t : Machine} {m : MachineM ε α} {running cut : List Load}
      (inside : Within m s running cut t) :
      Within (MachineM.attempt m : MachineM ε' (Except ε α)) s running cut t
  | mapError {ε ε' α : Type} {s t : Machine} {m : MachineM ε α} {running cut : List Load}
      (f : ε → ε') (inside : Within m s running cut t) :
      Within (MachineM.mapError f m) s running cut t
  | andThen {ε α : Type} {s t : Machine} {m : MachineM ε α} {running cut : List Load}
      (f : Machine → Machine) (inside : Within m s running cut t) :
      Within (MachineM.andThen m (modify f)) s running cut t
  | ofHost {α : Type} {s t : Machine} {m : MachineM ScriptError α} {running cut : List Load}
      (inside : Within m s running cut t) : Within (ScriptM.ofHost m) s running cut t
  | loading {call : Caller} {s t : Machine} {load : Load} {running cut : List Load}
      (free : load.name ∉ s.marks load.resolver)
      (inside : Within (Resolver.load call load.resolver load.name) (s.mark load) running cut t) :
      Within (Resolver.loadOnce call load.resolver load.name) s (running ++ [load]) cut t

namespace Within

variable {ε α : Type} {m : MachineM ε α} {s t : Machine} {running cut : List Load} {r : Nat}

/-- At every point inside a run, a name is marked at most once. -/
theorem distinct (inside : Within m s running cut t) (known : r < s.resolvers.size)
    (unmixed : (s.marks r).Nodup) : r < t.resolvers.size ∧ (t.marks r).Nodup := by
  induction inside with
  | here m => exact ⟨known, unmixed⟩
  | rest first result inside ih =>
    have account := first.account known unmixed (by simp [result])
    rw [result] at account
    exact ih account.known account.distinct
  | first _ _ ih | attempt _ ih | mapError _ _ ih | andThen _ _ ih | ofHost _ ih =>
    exact ih known unmixed
  | loading free inside ih =>
    exact ih (by simpa using known) (Cuts.distinct_mark known unmixed free)

/-- At every point inside a run, marks stand for the loads in progress and those cut short. -/
theorem mem_marks (inside : Within m s running cut t) (known : r < s.resolvers.size)
    (unmixed : (s.marks r).Nodup) (name : String) :
    name ∈ t.marks r ↔ ⟨r, name⟩ ∈ running ∨ ⟨r, name⟩ ∈ cut ∨ name ∈ s.marks r := by
  induction inside with
  | here m => simp
  | rest first result inside ih =>
    have account := first.account known unmixed (by simp [result])
    rw [result] at account
    rw [ih account.known account.distinct, account.marks, List.mem_append, List.mem_append,
      Load.mem_namesOf, or_assoc]
  | first _ _ ih | attempt _ ih | mapError _ _ ih | andThen _ _ ih | ofHost _ ih =>
    exact ih known unmixed
  | @loading call s t load running cut free inside ih =>
    rw [ih (by simpa using known) (Cuts.distinct_mark known unmixed free), List.mem_append,
      List.mem_singleton]
    by_cases own : load.resolver = r
    · subst own
      have same : (⟨load.resolver, name⟩ : Load) = load ↔ name = load.name := by
        constructor
        · intro same
          rw [← same]
        · rintro rfl
          rfl
      rw [Machine.marks_mark_self known, List.mem_cons]
      grind
    · have other : (⟨r, name⟩ : Load) ≠ load := by
        rintro rfl
        exact own rfl
      rw [Machine.marks_mark_other own]
      grind

end Within

/-! ## Answers of resolvers -/

namespace Resolver

variable {call : Caller} {r : Nat} {name x : String} {s t : Machine} {α β : Type}

/-- A computation that never answers by itself that a name is being loaded. -/
def Acyclic (m : ModuleM α) : Prop :=
  ∀ (s : Machine) (x : String), (m.runOn s).1 ≠ .error (.error (.cycle x))

theorem Acyclic.bind {m : ModuleM α} {f : α → ModuleM β} (first : Acyclic m)
    (rest : ∀ a, Acyclic (f a)) : Acyclic (m >>= f) := by
  intro s x
  rcases result : m.runOn s with ⟨stop | a, t⟩
  · rw [runOn_bind_stop result]
    simpa [result] using first s x
  · rw [runOn_bind_ok result]
    exact rest a t x

/-- A refusal after a computation that makes none. -/
theorem Acyclic.of_bind {m : ModuleM α} {f : α → ModuleM β} (first : Acyclic m)
    (answers : ((m >>= f).runOn s).1 = .error (.error (.cycle x))) :
    ∃ a t, m.runOn s = (.ok a, t) ∧ ((f a).runOn t).1 = .error (.error (.cycle x)) := by
  rcases result : m.runOn s with ⟨stop | a, t⟩
  · rw [runOn_bind_stop result] at answers
    cases answers
    exact absurd (by rw [result]) (first s x)
  · rw [runOn_bind_ok result] at answers
    exact ⟨a, t, rfl, answers⟩

/-- A refusal before computations that make none. -/
theorem Acyclic.of_rest {m : ModuleM α} {f : α → ModuleM β} (rest : ∀ a, Acyclic (f a))
    (answers : ((m >>= f).runOn s).1 = .error (.error (.cycle x))) :
    (m.runOn s).1 = .error (.error (.cycle x)) := by
  rcases result : m.runOn s with ⟨stop | a, t⟩
  · rw [runOn_bind_stop result] at answers
    cases answers
    rfl
  · rw [runOn_bind_ok result] at answers
    exact absurd answers (rest a t x)

theorem Acyclic.mapError {ε : Type} {f : ε → ModuleError} (m : MachineM ε α)
    (others : ∀ e x, f e ≠ .cycle x) : Acyclic (MachineM.mapError f m) := by
  intro s x
  rw [runOn_mapError]
  rcases m.runOn s with ⟨(e | _ | _) | _, t⟩
  · intro same
    injection same with same
    injection same with same
    exact others e x same
  all_goals
    intro same
    cases same

theorem currentCache_acyclic : Acyclic (currentCache call) := .mapError _ nofun

theorem cache_acyclic (r : Nat) : Acyclic (cache call r) := by
  refine .bind (fun _ _ => nofun) fun resolver => ?_
  split
  · exact fun _ _ => nofun
  · exact currentCache_acyclic

theorem receive_acyclic (v : Value) : Acyclic (ScriptM.receive v) := by
  intro s x
  unfold ScriptM.receive
  split
  · rw [runOn_bind, runOn_fault]
    dsimp only
    split <;> exact nofun
  · exact nofun

theorem send_acyclic (v : Value) : Acyclic (ScriptM.send v) := by
  intro s x
  unfold ScriptM.send
  split <;> exact nofun

theorem cached_acyclic (loaded : TableId) (name : String) : Acyclic (cached loaded name) := by
  refine .bind (fun s x => ?_) receive_acyclic
  rw [runOn_rawGet]
  exact nofun

theorem runFile_acyclic (name path : String) : Acyclic (runFile call name path) := by
  refine .bind (fun _ _ => nofun) fun s => ?_
  split
  · exact fun _ _ => nofun
  · exact .bind (fun _ _ => nofun) fun _ => .mapError _ nofun

theorem load_acyclic (r : Nat) (name : String) : Acyclic (load call r name) := by
  refine .bind (fun _ _ => nofun) fun resolver => ?_
  split
  · exact .mapError _ nofun
  · exact .mapError _ nofun
  · split
    · exact runFile_acyclic _ _
    · exact fun _ _ => nofun
    · exact fun _ _ => nofun

/-- A resolver looks for a name in its cache first. -/
def lookup (call : Caller) (r : Nat) (name : String) : ModuleM Value := do
  cached (← cache call r) name

theorem lookup_scripted (r : Nat) (name : String) : Scripted call (lookup call r name) :=
  ((cache_interpreted r).bind fun _ => cached_interpreted _ _).scripted

/-- Only a load is refused, and only of the name that is asked for. -/
theorem loadOnce_cycle (answers : ((loadOnce call r name).runOn s).1 = .error (.error (.cycle x))) :
    x = name ∧ name ∈ s.marks r := by
  by_cases marked : name ∈ s.marks r
  · rw [loadOnce_marked ⟨r, name⟩ marked] at answers
    cases answers
    exact ⟨rfl, marked⟩
  · rw [loadOnce_free ⟨r, name⟩ marked] at answers
    have acyclic : ((load call r name).runOn (s.mark ⟨r, name⟩)).1 ≠ .error (.error (.cycle x)) :=
      load_acyclic r name _ x
    generalize (load call r name).runOn (s.mark ⟨r, name⟩) = outcome at acyclic answers
    rcases outcome with ⟨(_ | _ | _) | _, t⟩
    · exact absurd answers acyclic
    all_goals cases answers

/-- A resolver answers that a name is being loaded only where it finds a mark after its lookup. -/
theorem require_cycle (answers : ((require call r name).runOn s).1 = .error (.error (.cycle x))) :
    x = name ∧ ∃ v t, (lookup call r name).runOn s = (.ok v, t) ∧ name ∈ t.marks r := by
  obtain ⟨loaded, t, found, answers⟩ := (cache_acyclic r).of_bind answers
  obtain ⟨v, u, present, answers⟩ := (cached_acyclic loaded name).of_bind answers
  have looked : (lookup call r name).runOn s = (.ok v, u) := by
    unfold lookup
    rw [runOn_bind_ok found, present]
  split at answers
  · cases answers
  have finish (w : Value) : Acyclic (do
      if !w.isNil then
        rawSet loaded (.text name) (← ScriptM.send w)
        return w
      let stored ← cached loaded name
      if !stored.isNil then return stored
      rawSet loaded (.text name) (.bool true)
      return .bool true) := by
    split
    · exact .bind (send_acyclic w) fun _ _ _ => nofun
    · refine (cached_acyclic loaded name).bind fun stored => ?_
      split <;> exact fun _ _ => nofun
  obtain ⟨same, marked⟩ := loadOnce_cycle (Acyclic.of_rest finish answers)
  exact ⟨same, v, u, looked, marked⟩

end Resolver

/-! ## Sessions -/

/--
A session: computations of scripts one after the other, each of which ends.  It has the loads that
panics cut short, the last one first, and the machine after it.
-/
inductive Session (s : Machine) : List Load → Machine → Prop where
  | start : Session s [] s
  | step {ε α : Type} {t : Machine} {m : MachineM ε α} {before cut : List Load}
      (session : Session s before t) (scripted : Scripted call m) (cuts : Cuts m t cut)
      (ends : (m.runOn t).1 ≠ .error .endless) : Session s (cut ++ before) (m.runOn t).2

namespace Session

variable {s t u : Machine} {r : Nat} {before cut running : List Load} {ε α : Type}
  {m : MachineM ε α}

theorem account (session : Session s cut t) (known : r < s.resolvers.size)
    (distinct : (s.marks r).Nodup) : Cuts.Account r cut s t := by
  induction session with
  | start => exact .ofChange known distinct .none
  | step session scripted cuts ends ih => exact ih.trans (cuts.account ih.known ih.distinct ends)

/-- A session goes on with any computation that ends. -/
theorem onward (session : Session s before t) (scripted : Scripted call m)
    (ends : (m.runOn t).1 ≠ .error .endless) :
    ∃ cut, Cuts m t cut ∧ Session s (cut ++ before) (m.runOn t).2 := by
  obtain ⟨cut, cuts⟩ := exists_cuts scripted t
  exact ⟨cut, cuts, .step session scripted cuts ends⟩

/--
A session from where a resolver has nothing marked.  Between its computations the marks are the
names of the loads that panics cut short, and any computation that ends leads to such a place again.
Inside a computation the marks also stand for the loads in progress.  A load is refused exactly for
a marked name, and else its loader runs; a resolver passes on no other refusal of its own.
-/
theorem marks_account (session : Session s before t) (known : r < s.resolvers.size)
    (idle : s.marks r = []) :
    t.marks r = Load.namesOf r before ∧
    (∀ {ε α : Type} {m : MachineM ε α}, Scripted call m → (m.runOn t).1 ≠ .error .endless →
      ∃ cut, Cuts m t cut ∧ Session s (cut ++ before) (m.runOn t).2 ∧
        (m.runOn t).2.marks r = Load.namesOf r (cut ++ before)) ∧
    ∀ {ε α : Type} {m : MachineM ε α} {running cut : List Load} {u : Machine},
      Within m t running cut u → ∀ name : String,
        (name ∈ u.marks r ↔ ⟨r, name⟩ ∈ running ∨ ⟨r, name⟩ ∈ cut ++ before) ∧
        ((Resolver.loadOnce call r name).runOn u =
          if ⟨r, name⟩ ∈ running ∨ ⟨r, name⟩ ∈ cut ++ before then
            (.error (.error (.cycle name)), u)
          else
            Load.settle ⟨r, name⟩ ((Resolver.load call r name).runOn (u.mark ⟨r, name⟩))) ∧
        ∀ x : String, ((Resolver.require call r name).runOn u).1 = .error (.error (.cycle x)) →
          x = name ∧ ∃ more, Cuts (Resolver.lookup call r name) u more ∧
            (⟨r, name⟩ ∈ running ∨ ⟨r, name⟩ ∈ more ++ (cut ++ before)) := by
  have distinct : (s.marks r).Nodup := by
    rw [idle]
    exact List.nodup_nil
  have left {loads : List Load} {u : Machine} (session : Session s loads u) :
      u.marks r = Load.namesOf r loads := by
    rw [(session.account known distinct).marks, idle, List.append_nil]
  refine ⟨left session, fun scripted ends => ?_, fun {_ _ _ _ cut u} inside name => ?_⟩
  · obtain ⟨cut, cuts, further⟩ := session.onward scripted ends
    exact ⟨cut, cuts, further, left further⟩
  have account := session.account known distinct
  have marked := inside.mem_marks account.known account.distinct name
  rw [left session, Load.mem_namesOf, ← List.mem_append] at marked
  refine ⟨marked, ?_, fun x answers => ?_⟩
  · split
    case isTrue there => exact Resolver.loadOnce_marked ⟨r, name⟩ (marked.2 there)
    case isFalse free =>
      exact Resolver.loadOnce_free ⟨r, name⟩ fun there => free (marked.1 there)
  · obtain ⟨same, v, w, looked, there⟩ := Resolver.require_cycle answers
    obtain ⟨more, cuts⟩ := exists_cuts (Resolver.lookup_scripted r name) u
    obtain ⟨here, once⟩ := inside.distinct account.known account.distinct
    have after := cuts.account here once (by simp [looked])
    rw [looked] at after
    rw [after.marks, List.mem_append, Load.mem_namesOf, marked] at there
    refine ⟨same, more, cuts, ?_⟩
    rw [List.mem_append]
    exact there.elim (fun cut => .inr (.inl cut)) (Or.imp_right .inr)

/-- A machine with a resolver whose one loader is a function of the host that panics. -/
def panicking : Machine :=
  { tables := #[.empty]
    functions := #[.native (.host fun _ => throw (.panic "boom"))]
    resolvers := #[{ preloads := [("a", .script (.function ⟨0⟩))], loaded := some ⟨0⟩ }] }

/-- The panic leaves the name marked: no load is in progress, and still the next one is refused. -/
theorem marks_account_panicking :
    0 < panicking.resolvers.size ∧ panicking.marks 0 = [] ∧
      ∃ cut t, (Resolver.loadOnce call 0 "a").runOn panicking = (.error (.panic "boom"), t) ∧
        Session panicking cut t ∧ ⟨0, "a"⟩ ∈ cut ∧
        (Resolver.loadOnce call 0 "a").runOn t = (.error (.error (.cycle "a")), t) := by
  have known : 0 < panicking.resolvers.size := by decide
  have panics : ((Resolver.loadOnce call 0 "a").runOn panicking).1 = .error (.panic "boom") := rfl
  have left : ((Resolver.loadOnce call 0 "a").runOn panicking).2.marks 0 = ["a"] := rfl
  have ends : ((Resolver.loadOnce call 0 "a").runOn panicking).1 ≠ .error .endless := by
    rw [panics]
    exact nofun
  obtain ⟨cut, -, session, marks⟩ :=
    (marks_account .start known rfl).2.1 (Resolver.loadOnce_scripted 0 "a") ends
  have there : ⟨0, "a"⟩ ∈ cut ++ [] := by
    rw [← Load.mem_namesOf, ← marks, left]
    exact List.mem_cons_self
  obtain ⟨-, refused, -⟩ :=
    (session.marks_account known rfl).2.2 (.here (pure () : ModuleM Unit)) "a"
  rw [if_pos (.inr there)] at refused
  refine ⟨known, rfl, cut ++ [], _, Prod.ext panics rfl, session, there, refused⟩

end Session

end ScriptHost
