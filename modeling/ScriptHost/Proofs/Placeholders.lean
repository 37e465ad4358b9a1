import ScriptHost.Proofs.ModuleCalls

/-!
# Placeholders

A function that stands for one of another interpreter raises an error, whatever it is called with
and wherever: if there is room for its frame, the error says so; if there is none, another one is
raised before.
-/

namespace ScriptHost

namespace MachineM

variable {ε α β : Type} {m : MachineM ε α} {f : α → MachineM ε β} {s t : Machine}

/-- A computation ends with an error of its own kind. -/
def Fails (m : MachineM ε α) (s : Machine) : Prop := ∃ e t, m.runOn s = (.error (.error e), t)

/-- A computation ends, be it with a result, an error or a panic. -/
def Settles (m : MachineM ε α) : Prop := ∀ s, (m.runOn s).1 ≠ .error .endless

theorem Fails.bind (first : Fails m s) : Fails (m >>= f) s := by
  obtain ⟨e, t, run⟩ := first
  exact ⟨e, t, runOn_bind_stop run f⟩

theorem Fails.of_ok {a : α} (first : m.runOn s = (.ok a, t)) (rest : Fails (f a) t) :
    Fails (m >>= f) s := by
  obtain ⟨e, u, run⟩ := rest
  exact ⟨e, u, by rw [runOn_bind_ok first, run]⟩

theorem Settles.pure (a : α) : Settles (Pure.pure a : MachineM ε α) := fun _ same => by cases same

theorem Settles.bind (first : Settles m) (rest : ∀ a, Settles (f a)) : Settles (m >>= f) := by
  intro s
  rw [runOn_bind]
  have here := first s
  generalize m.runOn s = outcome at here ⊢
  rcases outcome with ⟨stop | a, t⟩
  · intro same
    cases same
    exact here rfl
  · exact rest a t

theorem Settles.mapM {g : α → MachineM ε β} (each : ∀ a, Settles (g a)) (items : List α) :
    Settles (items.mapM g) := by
  induction items with
  | nil => exact .pure []
  | cons first rest ih =>
    rw [List.mapM_cons]
    exact (each first).bind fun _ => ih.bind fun _ => .pure _

end MachineM

open MachineM

namespace ScriptM

variable {α : Type} {m : ScriptM α} {s : Machine}

theorem raise_fails (message : String) (s : Machine) : Fails (raise message : ScriptM α) s := by
  have placed (level : Nat) : ∃ bytes, (position level).runOn s = (.ok bytes, s) := by
    unfold position
    rw [runOn_bind_ok (runOn_get s)]
    split
    · exact ⟨_, rfl⟩
    · exact ⟨_, rfl⟩
  obtain ⟨bytes, found⟩ := placed 0
  exact .of_ok found ⟨_, s, rfl⟩

theorem inFrame_fails {frame : Frame} (inner : Fails m { s with frames := frame :: s.frames }) :
    Fails (inFrame frame m) s := by
  obtain ⟨e, t, run⟩ := inner
  exact ⟨e, { t with frames := s.frames }, by rw [runOn_inFrame, run]⟩

theorem nested_fails (inner : Fails m { s with nesting := s.nesting + 1 }) :
    Fails (nested m) s := by
  by_cases room : s.nesting + 1 < nestingLimit
  · obtain ⟨e, t, run⟩ := inner
    exact ⟨e, { t with nesting := s.nesting }, by rw [runOn_nested m room, run]⟩
  · unfold nested
    refine .of_ok (runOn_get s) ?_
    rw [if_pos (Nat.le_of_not_lt room)]
    exact (raise_fails _ s).bind

/-- A slot of a call may lie beyond the stack. -/
theorem checkRoom_cases (start arguments slots : Nat) (s : Machine) :
    (checkRoom start arguments slots).runOn s = (.ok (), s) ∨
      Fails (checkRoom start arguments slots) s := by
  by_cases full : stackLimit < start + 1 + arguments + slots
  · right
    unfold checkRoom
    rw [if_pos full]
    exact raise_fails _ s
  · exact .inl (runOn_checkRoom s (Nat.le_of_not_lt full))

/-- What fails in the host is raised as a value. -/
theorem ofHost_fails {host : MachineM ScriptError α} (settles : Settles host)
    (fails : ∀ a t, host.runOn s ≠ (.ok a, t)) : Fails (ofHost host) s := by
  have notEndless := settles s
  unfold Fails
  rw [runOn_ofHost]
  rcases run : host.runOn s with ⟨(_ | _ | _) | a, t⟩
  · exact ⟨_, _, rfl⟩
  · exact ⟨_, _, rfl⟩
  · exact absurd (congrArg Prod.fst run) notEndless
  · exact absurd run (fails a t)

theorem receive_settles {ε : Type} (v : Value) : Settles (receive v : MachineM ε Value) := by
  intro s
  unfold receive
  split
  · rw [runOn_bind_ok (runOn_fault _ s)]
    split
    · intro same
      cases same
    · intro same
      cases same
    · intro same
      cases same
  · exact Settles.pure v s

theorem startOf_ok (site : CallSite) (s : Machine) :
    ∃ start, (startOf site).runOn s = (.ok start, s) := by
  unfold startOf
  rw [runOn_bind_ok (runOn_get s)]
  split
  · exact ⟨_, rfl⟩
  · exact ⟨_, rfl⟩
  · exact ⟨_, rfl⟩

end ScriptM

namespace Calls

open ScriptM

variable {path : String} {id : FunctionId} {s : Machine}

theorem native_placeholder_fails (call : Caller) (path : String) (args : List Value)
    (s : Machine) : Fails (native call (.placeholder path) args) s := by
  have settled : Settles (do
      let _ ← args.mapM receive
      Published.placeholder path) :=
    (Settles.mapM receive_settles args).bind fun _ _ same => by cases same
  refine ofHost_fails settled fun values t run => ?_
  obtain ⟨_, u, -, placed⟩ := runOn_bind_eq_ok.1 run
  cases placed

theorem enter_placeholder_fails
    (found : s.functions[id.index]? = some (.native (.placeholder path))) (call : Caller)
    (start fuel : Nat) (site : CallSite) (args : List Value) :
    Fails (enter call start (fuel + 1) site id args) s := by
  unfold enter
  refine .of_ok (runOn_function found) ?_
  let slots := slotsOf (.native (.placeholder path))
  rcases checkRoom_cases start args.length slots s with room | full
  · exact .of_ok room (inFrame_fails (native_placeholder_fails call path args _))
  · exact full.bind

/-- A placeholder raises an error wherever it is called. -/
theorem callAt_placeholder_fails
    (found : s.functions[id.index]? = some (.native (.placeholder path))) (depth : Nat)
    (site : CallSite) (args : List Value) : Fails (callAt depth site (.function id) args) s := by
  cases depth with
  | zero => exact raise_fails _ s
  | succ depth =>
    obtain ⟨fuel, limit⟩ := turnLimit_pos
    have called (u : Machine) : (callable site stackLimit (.function id) args).runOn u =
        (.ok (id, args), u) := by
      unfold callable
      rfl
    have entered (u : Machine)
        (same : u.functions[id.index]? = some (.native (.placeholder path))) :
        Fails (do enter (callAt depth) (← startOf site) Evaluation.turnLimit site id args) u := by
      obtain ⟨start, place⟩ := startOf_ok site u
      refine .of_ok place ?_
      rw [limit]
      exact enter_placeholder_fails same _ _ _ _ _
    unfold callAt
    dsimp only
    split
    · exact .of_ok (called s) (entered s found)
    · exact nested_fails (.of_ok (called _) (entered { s with nesting := s.nesting + 1 } found))

end Calls

end ScriptHost
