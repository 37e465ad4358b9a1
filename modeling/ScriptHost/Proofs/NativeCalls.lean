import ScriptHost.Proofs.Installation

/-!
# Calls of native functions

A call of a native function that ends well is a run of what the function stands for, on a machine
that differs in its calls in progress only.  The host sees no less: what it calls for scripts ends
well only if the call does.
-/

namespace ScriptHost

open MachineM

/-- A run of a computation on a machine makes another computation on the way, on some machine. -/
inductive Includes {ε' β : Type} (n : MachineM ε' β) (t : Machine) :
    {ε α : Type} → MachineM ε α → Machine → Prop where
  | here : Includes n t n t
  | first {ε α γ : Type} {s : Machine} {m : MachineM ε α} (f : α → MachineM ε γ)
      (inside : Includes n t m s) : Includes n t (m >>= f) s
  | rest {ε α γ : Type} {s u : Machine} {m : MachineM ε α} {f : α → MachineM ε γ} {a : α}
      (result : m.runOn s = (.ok a, u)) (inside : Includes n t (f a) u) : Includes n t (m >>= f) s
  | attempt {ε ε'' α : Type} {s : Machine} {m : MachineM ε α} (inside : Includes n t m s) :
      Includes n t (MachineM.attempt m : MachineM ε'' (Except ε α)) s
  | mapError {ε ε'' α : Type} {s : Machine} {m : MachineM ε α} (f : ε → ε'')
      (inside : Includes n t m s) : Includes n t (MachineM.mapError f m) s
  | andThen {ε α : Type} {s : Machine} {m : MachineM ε α} (after : StateM Machine Unit)
      (inside : Includes n t m s) : Includes n t (MachineM.andThen m after) s
  | ensuring {ε α : Type} {s : Machine} {m : MachineM ε α} (after : MachineM Empty Unit)
      (inside : Includes n t m s) : Includes n t (MachineM.ensuring m after) s
  | ofHost {α : Type} {s : Machine} {m : MachineM ScriptError α} (inside : Includes n t m s) :
      Includes n t (ScriptM.ofHost m) s

namespace Includes

variable {ε ε' ε'' α β γ : Type} {k : MachineM ε'' γ} {n : MachineM ε' β} {m : MachineM ε α}
  {s t u : Machine}

theorem trans (inner : Includes k u n t) (outer : Includes n t m s) : Includes k u m s := by
  induction outer with
  | here => exact inner
  | first f _ ih => exact ih.first f
  | rest result _ ih => exact ih.rest result
  | attempt _ ih => exact ih.attempt
  | mapError f _ ih => exact ih.mapError f
  | andThen after _ ih => exact ih.andThen after
  | ensuring after _ ih => exact ih.ensuring after
  | ofHost _ ih => exact ih.ofHost

theorem nested {m : ScriptM α} (room : s.nesting + 1 < ScriptM.nestingLimit)
    (inside : Includes n t m { s with nesting := s.nesting + 1 }) :
    Includes n t (ScriptM.nested m) s := by
  unfold ScriptM.nested
  refine .rest (runOn_get s) ?_
  rw [if_neg (Nat.not_le_of_lt room)]
  exact .rest (runOn_modify _ s) (inside.andThen _)

theorem inFrame {m : ScriptM α} (frame : Frame)
    (inside : Includes n t m { s with frames := frame :: s.frames }) :
    Includes n t (ScriptM.inFrame frame m) s :=
  .rest (runOn_get s) (.rest (runOn_modify _ s) (inside.andThen _))

end Includes

namespace ScriptM

variable {α : Type} {call : Caller} {s t : Machine} {a : α}

theorem raise_ne_ok (message : String) : (raise message : ScriptM α).runOn s ≠ (.ok a, t) := by
  intro run
  rw [raise, raiseAt] at run
  obtain ⟨_, _, _, failed⟩ := runOn_bind_eq_ok.1 run
  cases failed

theorem leave_fault_ne_ok (fuel index : Nat) :
    (leave call fuel (.fault index) : MachineM ScriptError α).runOn s ≠ (.ok a, t) := by
  intro run
  unfold leave at run
  dsimp only at run
  rw [runOn_bind_ok (runOn_fault index s)] at run
  cases found : s.faults[index]?.getD default with
  | error e =>
    rw [found] at run
    cases run
  | panic text =>
    rw [found] at run
    cases text <;> cases run

/-- A value that was raised is never a result. -/
theorem leave_ne_ok (fuel : Nat) (v : Value) :
    (leave call fuel v : MachineM ScriptError α).runOn s ≠ (.ok a, t) := by
  induction fuel generalizing v s with
  | zero =>
    intro run
    cases v with
    | fault index => exact leave_fault_ne_ok 0 index run
    | _ => cases run
  | succ fuel ih =>
    intro run
    cases v with
    | fault index => exact leave_fault_ne_ok (fuel + 1) index run
    | _ =>
      unfold leave at run
      dsimp only at run
      obtain ⟨outcome, u, -, rest⟩ := runOn_bind_eq_ok.1 run
      cases outcome with
      | ok bytes => cases rest
      | error inner => exact ih inner rest

/-- What the host runs for scripts ends well only by itself. -/
theorem runOn_protect_eq_ok {m : ScriptM α} :
    (protect call m).runOn s = (.ok a, t) ↔ m.runOn s = (.ok a, t) := by
  constructor
  · intro run
    rw [protect] at run
    obtain ⟨outcome, u, attempted, rest⟩ := runOn_bind_eq_ok.1 run
    cases outcome with
    | ok b =>
      cases rest
      rw [runOn_attempt] at attempted
      rcases ran : m.runOn s with ⟨(_ | _ | _) | _, _⟩ <;> rw [ran] at attempted <;> cases attempted
      rfl
    | error v => exact absurd rest (leave_ne_ok _ v)
  · exact runOn_protect

theorem runOn_ofHost_eq_ok {m : MachineM ScriptError α} :
    (ofHost m).runOn s = (.ok a, t) ↔ m.runOn s = (.ok a, t) := by
  rw [runOn_ofHost]
  rcases m.runOn s with ⟨(_ | _ | _) | _, _⟩ <;> simp

/-- A place of the stack is always found. -/
theorem runOn_startOf (site : CallSite) (s : Machine) :
    ∃ start, (startOf site).runOn s = (.ok start, s) := by
  rw [startOf, runOn_bind_ok (runOn_get s)]
  rcases s.frames with _ | ⟨frame, rest⟩
  · exact ⟨0, rfl⟩
  · cases site.slot with
    | none => exact ⟨frame.top, rfl⟩
    | some slot => exact ⟨frame.base + slot, rfl⟩

end ScriptM

namespace Machine

/-- A machine with other calls in progress. -/
def Aside (s t : Machine) : Prop := ∃ frames nesting, t = { s with frames, nesting }

theorem Aside.refl (s : Machine) : s.Aside s := ⟨s.frames, s.nesting, rfl⟩

theorem Aside.trans {s t u : Machine} (first : s.Aside t) (second : t.Aside u) : s.Aside u := by
  obtain ⟨_, _, rfl⟩ := first
  obtain ⟨frames, nesting, rfl⟩ := second
  exact ⟨frames, nesting, rfl⟩

end Machine

namespace Calls

open ScriptM

variable {s t : Machine} {id : FunctionId} {n : Native} {args results : List Value}

theorem enter_native_includes {call : Caller} {start fuel : Nat} {site : CallSite}
    (found : s.functions[id.index]? = some (.native n))
    (run : (enter call start fuel site id args).runOn s = (.ok results, t)) :
    ∃ u v, s.Aside u ∧ Includes (native call n args) u (enter call start fuel site id args) s ∧
      (native call n args).runOn u = (.ok results, v) ∧ v.Aside t := by
  cases fuel with
  | zero => cases run
  | succ fuel =>
    rw [enter, runOn_bind_ok (runOn_function found)] at run
    obtain ⟨_, w, checked, rest⟩ := runOn_bind_eq_ok.1 run
    obtain rfl : s = w := by
      rw [checkRoom] at checked
      split at checked
      · exact absurd checked (raise_ne_ok _)
      · cases checked
        rfl
    dsimp only at rest
    have includes : Includes (native call n args) _ (enter call start (fuel + 1) site id args) s :=
      .rest (runOn_function found) (.rest checked (.inFrame _ .here))
    rw [runOn_inFrame] at rest
    obtain ⟨outcome, rfl⟩ := Prod.mk.inj rest
    exact ⟨_, _, ⟨_, s.nesting, rfl⟩, includes, Prod.ext outcome rfl, ⟨s.frames, _, rfl⟩⟩

/-- A call of a native function that ends well makes what the function stands for. -/
theorem callAt_native_includes {depth : Nat} {site : CallSite}
    (found : s.functions[id.index]? = some (.native n))
    (run : (callAt depth site (.function id) args).runOn s = (.ok results, t)) :
    ∃ below u v, s.Aside u ∧
      Includes (native (callAt below) n args) u (callAt depth site (.function id) args) s ∧
      (native (callAt below) n args).runOn u = (.ok results, v) ∧ v.Aside t := by
  cases depth with
  | zero => exact absurd run (raise_ne_ok _)
  | succ below =>
    have called (s : Machine) : (callable site stackLimit (.function id) args).runOn s =
        (.ok (id, args), s) := by
      unfold callable
      rfl
    let body : ScriptM (List Value) := do
      let called ← callable site stackLimit (.function id) args
      enter (callAt below) (← startOf site) Evaluation.turnLimit site called.1 called.2
    have inside {s t : Machine} (found : s.functions[id.index]? = some (.native n))
        (run : body.runOn s = (.ok results, t)) :
        ∃ u v, s.Aside u ∧ Includes (native (callAt below) n args) u body s ∧
          (native (callAt below) n args).runOn u = (.ok results, v) ∧ v.Aside t := by
      obtain ⟨start, placed⟩ := runOn_startOf site s
      rw [runOn_bind_ok (called s), runOn_bind_ok placed] at run
      obtain ⟨u, v, before, includes, ran, after⟩ := enter_native_includes found run
      exact ⟨u, v, before, .rest (called s) (.rest placed includes), ran, after⟩
    have unfolded : callAt (below + 1) site (.function id) args =
        if site.slot.isSome then body else nested body := rfl
    rw [unfolded] at run ⊢
    split at run
    · next own =>
      obtain ⟨u, v, before, includes, ran, after⟩ := inside found run
      rw [if_pos own]
      exact ⟨below, u, v, before, includes, ran, after⟩
    · next own =>
      rw [if_neg own]
      by_cases room : s.nesting + 1 < nestingLimit
      · rw [runOn_nested _ room] at run
        obtain ⟨outcome, rfl⟩ := Prod.mk.inj run
        obtain ⟨u, v, before, includes, ran, after⟩ :=
          inside (s := { s with nesting := s.nesting + 1 }) found (Prod.ext outcome rfl)
        exact ⟨below, u, v, Machine.Aside.trans ⟨s.frames, s.nesting + 1, rfl⟩ before,
          .nested room includes, ran, after.trans ⟨_, s.nesting, rfl⟩⟩
      · rw [nested, runOn_bind_ok (runOn_get s), if_pos (Nat.le_of_not_lt room)] at run
        obtain ⟨_, _, raised, _⟩ := runOn_bind_eq_ok.1 run
        exact absurd raised (raise_ne_ok _)

theorem callAt_native_ok {depth : Nat} {site : CallSite}
    (found : s.functions[id.index]? = some (.native n))
    (run : (callAt depth site (.function id) args).runOn s = (.ok results, t)) :
    ∃ below u v, s.Aside u ∧ (native (callAt below) n args).runOn u = (.ok results, v) ∧
      v.Aside t := by
  obtain ⟨below, u, v, before, -, ran, after⟩ := callAt_native_includes found run
  exact ⟨below, u, v, before, ran, after⟩

end Calls

end ScriptHost
