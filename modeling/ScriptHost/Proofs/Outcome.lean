import ScriptHost.Script.Machine

/-!
# Outcomes of computations

A computation of the machine is a function: on a machine it ends with a result or stops, and leaves
a machine behind.  The lemmas here say what each way to put computations together makes of their
outcomes.
-/

namespace ScriptHost

namespace MachineM

variable {ε ε' α β : Type}

/-- What a computation ends with on a machine, and the machine after it. -/
def runOn (m : MachineM ε α) (s : Machine) : Except (Stop ε) α × Machine := m.run.run s

@[simp]
theorem runOn_pure (a : α) (s : Machine) : (pure a : MachineM ε α).runOn s = (.ok a, s) := rfl

@[simp]
theorem runOn_throw (stop : Stop ε) (s : Machine) :
    (throw stop : MachineM ε α).runOn s = (.error stop, s) := rfl

@[simp]
theorem runOn_fail (e : ε) (s : Machine) :
    (fail e : MachineM ε α).runOn s = (.error (.error e), s) := rfl

@[simp]
theorem runOn_get (s : Machine) : (get : MachineM ε Machine).runOn s = (.ok s, s) := rfl

@[simp]
theorem runOn_modify (f : Machine → Machine) (s : Machine) :
    (modify f : MachineM ε Unit).runOn s = (.ok (), f s) := rfl

theorem runOn_bind (m : MachineM ε α) (f : α → MachineM ε β) (s : Machine) :
    (m >>= f).runOn s =
      match m.runOn s with
      | (.ok a, t) => (f a).runOn t
      | (.error stop, t) => (.error stop, t) := by
  simp only [runOn, ExceptT.run_bind, StateT.run_bind]
  rcases m.run.run s with ⟨_ | _, t⟩ <;> simp <;> rfl

/-- A computation goes on from the result of its first part. -/
theorem runOn_bind_ok {m : MachineM ε α} {s t : Machine} {a : α} (first : m.runOn s = (.ok a, t))
    (f : α → MachineM ε β) : (m >>= f).runOn s = (f a).runOn t := by
  rw [runOn_bind, first]

/-- A computation stops when its first part does. -/
theorem runOn_bind_stop {m : MachineM ε α} {s t : Machine} {stop : Stop ε}
    (first : m.runOn s = (.error stop, t)) (f : α → MachineM ε β) :
    (m >>= f).runOn s = (.error stop, t) := by
  rw [runOn_bind, first]

/-- A computation has a result exactly if both of its parts have. -/
theorem runOn_bind_eq_ok {m : MachineM ε α} {f : α → MachineM ε β} {s u : Machine} {b : β} :
    (m >>= f).runOn s = (.ok b, u) ↔
      ∃ a t, m.runOn s = (.ok a, t) ∧ (f a).runOn t = (.ok b, u) := by
  rw [runOn_bind]
  rcases m.runOn s with ⟨stop | a, t⟩
  · simp
  · constructor
    · exact fun rest => ⟨a, t, rfl, rest⟩
    · rintro ⟨_, _, same, rest⟩
      cases same
      exact rest

/-- What holds of both parts of a computation, from machine to machine, holds of it all. -/
theorem runOn_bind_trans {R : Machine → Machine → Prop}
    (trans : ∀ {s t u : Machine}, R s t → R t u → R s u) {m : MachineM ε α}
    {f : α → MachineM ε β} {s : Machine} (first : R s (m.runOn s).2)
    (rest : ∀ a t, m.runOn s = (.ok a, t) → R t ((f a).runOn t).2) :
    R s ((m >>= f).runOn s).2 := by
  rcases result : m.runOn s with ⟨stop | a, t⟩ <;> rw [result] at first
  · rw [runOn_bind_stop result]
    exact first
  · rw [runOn_bind_ok result]
    exact trans first (rest a t result)

@[simp]
theorem runOn_map (f : α → β) (m : MachineM ε α) (s : Machine) :
    (f <$> m).runOn s = ((m.runOn s).1.map f, (m.runOn s).2) := by
  rw [map_eq_pure_bind, runOn_bind]
  rcases m.runOn s with ⟨_ | _, t⟩ <;> rfl

@[simp]
theorem runOn_attempt (m : MachineM ε α) (s : Machine) :
    (attempt m : MachineM ε' (Except ε α)).runOn s =
      match m.runOn s with
      | (.ok a, t) => (.ok (.ok a), t)
      | (.error (.error e), t) => (.ok (.error e), t)
      | (.error (.panic text), t) => (.error (.panic text), t)
      | (.error .endless, t) => (.error .endless, t) := by
  simp only [runOn, attempt, ExceptT.run_mk, StateT.run_bind]
  rcases h : m.run.run s with ⟨(_ | _ | _) | _, t⟩ <;> simp <;> rfl

@[simp]
theorem runOn_mapError (f : ε → ε') (m : MachineM ε α) (s : Machine) :
    (mapError f m).runOn s = ((m.runOn s).1.mapError (Stop.map f), (m.runOn s).2) := by
  simp only [runOn, mapError, ExceptT.run_mk, StateT.run_bind]
  rcases m.run.run s with ⟨_ | _, t⟩ <;> simp <;> rfl

theorem runOn_mapError_ok {f : ε → ε'} {m : MachineM ε α} {s t : Machine} {a : α}
    (run : m.runOn s = (.ok a, t)) : (mapError f m).runOn s = (.ok a, t) := by
  rw [runOn_mapError, run]
  rfl

theorem runOn_mapError_stop {f : ε → ε'} {m : MachineM ε α} {s t : Machine} {stop : Stop ε}
    (run : m.runOn s = (.error stop, t)) : (mapError f m).runOn s = (.error (stop.map f), t) := by
  rw [runOn_mapError, run]
  rfl

theorem mapError_eq_ok {f : ε → ε'} {m : MachineM ε α} {s t : Machine} {a : α}
    (run : (mapError f m).runOn s = (.ok a, t)) : m.runOn s = (.ok a, t) := by
  rw [runOn_mapError] at run
  generalize m.runOn s = outcome at run ⊢
  rcases outcome with ⟨stop | b, u⟩
  · cases run
  · cases run
    rfl

@[simp]
theorem runOn_andThen (m : MachineM ε α) (f : Machine → Machine) (s : Machine) :
    (andThen m (modify f)).runOn s = ((m.runOn s).1, f (m.runOn s).2) := by
  simp only [runOn, andThen, ExceptT.run_mk, StateT.run_bind]
  rcases m.run.run s with ⟨_ | _, t⟩ <;> simp <;> rfl

/-- A computation that never ends is not cleared up after. -/
theorem runOn_ensuring_endless {m : MachineM ε α} {s t : Machine}
    (run : m.runOn s = (.error .endless, t)) (after : MachineM Empty Unit) :
    (ensuring m after).runOn s = (.error .endless, t) := by
  rw [runOn] at run ⊢
  simp only [ensuring, ExceptT.run_mk, StateT.run_bind, run]
  rfl

theorem runOn_ensuring {m : MachineM ε α} {s t : Machine} {result : Except (Stop ε) α}
    (run : m.runOn s = (result, t)) (back : result ≠ .error .endless)
    (after : MachineM Empty Unit) :
    (ensuring m after).runOn s = (outcome result (after.runOn t).1, (after.runOn t).2) := by
  rw [runOn] at run
  rcases result with (e | text | _) | a
  case error.endless => exact absurd rfl back
  all_goals
    simp only [ensuring, runOn, ExceptT.run_mk, StateT.run_bind, run]
    rfl

/-- What a computation and the clearing up come to: its own result, or nothing but a panic. -/
theorem outcome_cases (result : Except (Stop ε) α) (after : Except (Stop Empty) Unit) :
    outcome result after = result ∨ (∃ text, outcome result after = .error (.panic text)) ∨
      outcome result after = .error .endless := by
  rcases after with (impossible | text | _) | done
  · exact nomatch impossible
  · rcases result with (e | other | _) | a
    · exact .inr (.inl ⟨text, rfl⟩)
    · exact .inr (.inr rfl)
    · exact .inr (.inl ⟨text, rfl⟩)
    · exact .inr (.inl ⟨text, rfl⟩)
  · rcases result with (e | other | _) | a <;> exact .inr (.inr rfl)
  · exact .inl rfl

/-- A result that comes back although something was cleared up is that of the computation. -/
theorem ensuring_eq_ok {m : MachineM ε α} {after : MachineM Empty Unit} {s t u : Machine}
    {result : Except (Stop ε) α} {a : α} (run : m.runOn s = (result, t))
    (ended : (ensuring m after).runOn s = (.ok a, u)) : result = .ok a := by
  by_cases back : result = .error .endless
  · rw [runOn_ensuring_endless (back ▸ run) after] at ended
    cases ended
  · rw [runOn_ensuring run back] at ended
    have same := congrArg Prod.fst ended
    dsimp only at same
    rcases outcome_cases result (after.runOn t).1 with own | ⟨text, panic⟩ | endless
    · exact own.symm.trans same
    · cases panic.symm.trans same
    · cases endless.symm.trans same

@[simp]
theorem runOn_table (id : TableId) (s : Machine) :
    (table id : MachineM ε Table).runOn s = (.ok (s.tables[id.index]?.getD default), s) := rfl

@[simp]
theorem runOn_newTable (t : Table) (s : Machine) :
    (newTable t : MachineM ε TableId).runOn s =
      (.ok ⟨s.tables.size⟩, { s with tables := s.tables.push t }) := rfl

@[simp]
theorem runOn_rawSet (id : TableId) (key v : Value) (s : Machine) :
    (rawSet id key v : MachineM ε Unit).runOn s =
      (.ok (), { s with tables := s.tables.modify id.index (·.set key v) }) := rfl

/-- A lookup has the value under the key; it leaves a trace only in how the table is searched. -/
theorem runOn_rawGet (id : TableId) (key : Value) (s : Machine) :
    (rawGet id key : MachineM ε Value).runOn s =
      (.ok ((s.tables[id.index]?.getD default).get key),
        if (s.tables[id.index]?.getD default).horizon <
            (s.tables[id.index]?.getD default).items.size then
          { s with tables := s.tables.modify id.index (·.touch key) }
        else s) := by
  unfold rawGet
  rw [runOn_bind_ok (runOn_table id s)]
  split
  · rfl
  · rfl

@[simp]
theorem runOn_newFault (f : Fault) (s : Machine) :
    (newFault f : MachineM ε Value).runOn s =
      (.ok (.fault s.faults.size), { s with faults := s.faults.push f }) := rfl

@[simp]
theorem runOn_fault (index : Nat) (s : Machine) :
    (fault index : MachineM ε Fault).runOn s = (.ok (s.faults[index]?.getD default), s) := rfl

@[simp]
theorem runOn_readObjects (m : StateM Objects α) (s : Machine) :
    (readObjects m : MachineM ε α).runOn s =
      (.ok (m.run s.objects).1, { s with objects := (m.run s.objects).2 }) := rfl

@[simp]
theorem runOn_onObjects (f : HostError → ε) (m : HostM α) (s : Machine) :
    (onObjects f m).runOn s =
      ((m.run.run s.objects).1.mapError (Stop.map f),
        { s with objects := (m.run.run s.objects).2 }) := by
  simp only [runOn, onObjects, ExceptT.run_mk, StateT.run_bind]
  rcases h : m.run.run s.objects with ⟨_ | _, t⟩ <;> simp [h] <;> rfl

end MachineM

namespace ScriptM

open MachineM

/-- What happens to a computation of the host inside a script. -/
theorem runOn_ofHost {α : Type} (m : MachineM ScriptError α) (s : Machine) :
    (ofHost m).runOn s =
      match m.runOn s with
      | (.ok a, t) => (.ok a, t)
      | (.error (.error e), t) =>
        (.error (.error (.fault t.faults.size)), { t with faults := t.faults.push (.error e) })
      | (.error (.panic text), t) =>
        (.error (.error (.fault t.faults.size)),
          { t with faults := t.faults.push (.panic (some text)) })
      | (.error .endless, t) => (.error .endless, t) := by
  simp only [runOn, ofHost, ExceptT.run_mk, StateT.run_bind]
  rcases m.run.run s with ⟨(_ | _ | _) | _, t⟩ <;> rfl

end ScriptM

end ScriptHost
