import ScriptHost.Proofs.Marks
import ScriptHost.Proofs.ModuleBodies

/-!
# Entries of modules

A resolver with a cache decides by one entry of it what becomes of a requirement: a module that has
an entry is what the entry says, and one without is loaded, after which it has one.
-/

namespace ScriptHost

open MachineM

namespace ScriptM

variable {s : Machine}

/-- The host receives a value without a change of the machine but for failures. -/
theorem receive_faults {ε : Type} (v : Value) (s : Machine) :
    ∃ faults, ((receive v : MachineM ε Value).runOn s).2 = { s with faults } := by
  cases v with
  | fault index =>
    rw [receive, runOn_bind_ok (runOn_fault index s)]
    cases s.faults[index]?.getD default with
    | error e => exact ⟨_, rfl⟩
    | panic text => cases text <;> exact ⟨_, rfl⟩
  | _ => exact ⟨_, rfl⟩

/-- The host receives a value as itself, but for a spent panic, of which it makes an error. -/
theorem receive_eq_ok {ε : Type} {v w : Value} {t : Machine}
    (received : (receive v : MachineM ε Value).runOn s = (.ok w, t)) :
    (w = v ∧ t = s ∧ ∀ index, v = .fault index → ∃ e, s.faults[index]? = some (.error e)) ∨
      ∃ index, v = .fault index ∧ s.faults[index]?.getD default = .panic none ∧
        w = .fault s.faults.size ∧ t = { s with faults := s.faults.push (.error .spentPanic) } := by
  cases v with
  | fault index =>
    rw [receive, runOn_bind_ok (runOn_fault index s)] at received
    cases found : s.faults[index]?.getD default with
    | error e =>
      rw [found] at received
      cases received
      refine .inl ⟨rfl, rfl, fun other same => ⟨e, ?_⟩⟩
      cases same
      cases there : s.faults[index]? with
      | none =>
        rw [there] at found
        cases found
      | some f =>
        rw [there] at found
        exact congrArg some found
    | panic text =>
      rw [found] at received
      cases text with
      | none =>
        cases received
        exact .inr ⟨index, rfl, found, rfl, rfl⟩
      | some text => cases received
  | _ =>
    cases received
    exact .inl ⟨rfl, rfl, fun index same => by cases same⟩

/-- The host receives no value as nil but nil. -/
theorem receive_ne_nil {ε : Type} {v w : Value} {t : Machine} (present : v ≠ .nil)
    (received : (receive v : MachineM ε Value).runOn s = (.ok w, t)) : w ≠ .nil := by
  rcases receive_eq_ok received with ⟨rfl, -⟩ | ⟨index, -, -, rfl, -⟩
  · exact present
  · intro same
    cases same

end ScriptM

namespace Resolver

variable {call : Caller} {s : Machine} {r : Nat} {loaded : TableId} {name : String}

/-- What is left of a requirement when the module was loaded. -/
def enterValue (loaded : TableId) (name : String) (v : Value) : ModuleM Value := do
  if !v.isNil then
    rawSet loaded (.text name) (← ScriptM.send v)
    return v
  let stored ← cached loaded name
  if !stored.isNil then return stored
  rawSet loaded (.text name) (.bool true)
  return .bool true

theorem runOn_cached (loaded : TableId) (name : String) (s : Machine) :
    (cached loaded name).runOn s =
      (ScriptM.receive (s.held loaded name)).runOn (s.searched loaded name) := by
  rw [cached, runOn_bind_ok (runOn_lookup _ _ _)]

/-- What the loader gave becomes the entry. -/
theorem enterValue_present {v : Value} (present : v ≠ .nil) :
    enterValue loaded name v = do
      rawSet loaded (.text name) (← ScriptM.send v)
      return v := by
  rw [enterValue, Value.isNil_eq_false present]
  rfl

/-- A module with an entry is what the host receives of it. -/
theorem require_found (cache : s.cacheOf r = some loaded) (present : s.held loaded name ≠ .nil) :
    (require call r name).runOn s =
      (ScriptM.receive (s.held loaded name)).runOn (s.searched loaded name) := by
  rw [require, runOn_bind_ok (runOn_cache_of_cacheOf cache), runOn_bind, runOn_cached]
  rcases received : (ScriptM.receive (s.held loaded name) : ModuleM Value).runOn
    (s.searched loaded name) with ⟨stop | w, t⟩
  · rfl
  · dsimp only
    rw [Value.isNil_eq_false (ScriptM.receive_ne_nil present received)]
    rfl

/-- A module without an entry is loaded first. -/
theorem require_missed (cache : s.cacheOf r = some loaded) (absent : s.held loaded name = .nil) :
    (require call r name).runOn s =
      (loadOnce call r name >>= enterValue loaded name).runOn (s.searched loaded name) := by
  have nothing : (cached loaded name).runOn s = (.ok .nil, s.searched loaded name) := by
    rw [runOn_cached, absent]
    rfl
  rw [require, runOn_bind_ok (runOn_cache_of_cacheOf cache), runOn_bind_ok nothing]
  rfl

end Resolver

end ScriptHost
