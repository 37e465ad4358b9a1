import ScriptHost.Proofs.Installation
import ScriptHost.Proofs.InterpretedCalls
import ScriptHost.Proofs.Unfolding

/-!
# Lookups of the host

The host looks up what a table has under a name.  Where no metatable has to help, no script runs and
all tables stay as they are.  The host then gets what the table has, unless that is a caught panic,
which goes on.
-/

namespace ScriptHost

open MachineM

namespace Machine

/-- A caught panic has one text. -/
theorem Raises.unique {s : Machine} {v : Value} {text other : String} (raises : s.Raises v text)
    (also : s.Raises v other) : text = other := by
  obtain ⟨index, rfl, found⟩ := raises
  obtain ⟨_, same, there⟩ := also
  cases same
  cases found.symm.trans there
  rfl

theorem raises_searched (s : Machine) (id : TableId) (name : String) (v : Value) (text : String) :
    (s.searched id name).Raises v text ↔ s.Raises v text := by
  obtain ⟨tables, -, same⟩ := s.searched_eq id name
  rw [same]
  rfl

/-- Every table has the metatable that it had. -/
def KeepsMetatables (s t : Machine) : Prop :=
  ∀ id : TableId, (t.tables[id.index]?.getD default).metatable =
    (s.tables[id.index]?.getD default).metatable

theorem KeepsMetatables.trans {s t u : Machine} (first : s.KeepsMetatables t)
    (second : t.KeepsMetatables u) : s.KeepsMetatables u :=
  fun id => (second id).trans (first id)

theorem entering_keepsMetatables (s : Machine) (id : TableId) (name : String) (v : Value) :
    s.KeepsMetatables (s.entering id name v) :=
  fun other => metatable_entering s id other name v

theorem entering_keeps (s : Machine) (id : TableId) (name : String) (v : Value) :
    s.Keeps (s.entering id name v) := ⟨rfl, rfl, fun _ => rfl⟩

/-- A machine that looked something up: its tables hold what they held, and no panic is new. -/
structure Resembles (s t : Machine) : Prop extends s.Keeps t where
  held : ∀ id name, t.held id name = s.held id name
  metatables : s.KeepsMetatables t
  raises : ∀ v text, t.Raises v text → s.Raises v text

namespace Resembles

variable {s t u : Machine}

theorem refl (s : Machine) : s.Resembles s :=
  ⟨.refl s, fun _ _ => rfl, fun _ => rfl, fun _ _ raises => raises⟩

theorem trans (first : s.Resembles t) (second : t.Resembles u) : s.Resembles u :=
  ⟨first.toKeeps.trans second.toKeeps,
    fun id name => (second.held id name).trans (first.held id name),
    first.metatables.trans second.metatables,
    fun v text raises => first.raises v text (second.raises v text raises)⟩

theorem searched (s : Machine) (id : TableId) (name : String) :
    s.Resembles (s.searched id name) := by
  have held := s.held_searched id name
  have metatables := s.metatable_searched id name
  obtain ⟨tables, -, same⟩ := s.searched_eq id name
  rw [same] at held metatables ⊢
  exact ⟨⟨rfl, rfl, fun _ => rfl⟩, held, metatables, fun _ _ raises => raises⟩

/-- A caught panic that went on is spent. -/
theorem spent (s : Machine) (index : Nat) :
    s.Resembles { s with faults := s.faults.setIfInBounds index (.panic none) } := by
  refine ⟨⟨rfl, rfl, fun _ => rfl⟩, fun _ _ => rfl, fun _ => rfl, ?_⟩
  rintro v text ⟨other, rfl, found⟩
  refine ⟨other, rfl, ?_⟩
  rw [Array.getElem?_setIfInBounds] at found
  split at found
  · split at found <;> cases found
  · exact found

/-- A failure that is no panic may be added. -/
theorem failed (s : Machine) (e : ScriptError) :
    s.Resembles { s with faults := s.faults.push (.error e) } := by
  refine ⟨⟨rfl, rfl, fun _ => rfl⟩, fun _ _ => rfl, fun _ => rfl, ?_⟩
  rintro v text ⟨other, rfl, found⟩
  refine ⟨other, rfl, ?_⟩
  rw [Array.getElem?_push] at found
  split at found
  · cases found
  · exact found

end Resembles

/-- A lookup that needs no metatable. -/
def Unaided (s : Machine) (id : TableId) (name : String) : Prop :=
  s.held id name = .nil → (s.tables[id.index]?.getD default).metatable = none

theorem Resembles.unaided {s t : Machine} (same : s.Resembles t) {id : TableId} {name : String}
    (unaided : s.Unaided id name) : t.Unaided id name := by
  intro absent
  rw [same.metatables id]
  exact unaided ((same.held id name).symm.trans absent)

end Machine

namespace ScriptM

open Machine

variable {call : Caller} {s t : Machine} {id : TableId} {name : String}

/-- What the host gets for a value: a panic that goes on, or a value, a table only for a table. -/
inductive Received {ε : Type} (s : Machine) (v : Value) : Except (Stop ε) Value → Prop where
  | raised {text : String} (raises : s.Raises v text) : Received s v (.error (.panic text))
  | value {w : Value} (calm : ∀ text, ¬ s.Raises v text)
      (table : ∀ id, w = .table id → v = .table id) : Received s v (.ok w)

theorem Received.of_searched {ε : Type} {v : Value} {result : Except (Stop ε) Value}
    (received : Received (s.searched id name) v result) : Received s v result := by
  cases received with
  | raised raises => exact .raised ((raises_searched ..).1 raises)
  | value calm table =>
    exact .value (fun text raises => calm text ((raises_searched ..).2 raises)) table

theorem receive_received {ε : Type} (v : Value) (s : Machine) :
    s.Resembles ((receive v : MachineM ε Value).runOn s).2 ∧
      Received s v ((receive v : MachineM ε Value).runOn s).1 := by
  cases v with
  | fault index =>
    rw [receive, runOn_bind_ok (runOn_fault index s)]
    have calm (quiet : ∀ text, s.faults[index]?.getD default ≠ .panic (some text)) (text : String) :
        ¬ s.Raises (.fault index) text := by
      rintro ⟨_, same, found⟩
      cases same
      refine quiet text ?_
      rw [found]
      rfl
    cases found : s.faults[index]?.getD default with
    | error e =>
      refine ⟨.refl s, .value (calm fun text same => ?_) fun _ same => same⟩
      cases found.symm.trans same
    | panic text =>
      cases text with
      | none =>
        refine ⟨.failed s _, .value (calm fun text same => ?_) fun _ same => by cases same⟩
        cases found.symm.trans same
      | some text =>
        refine ⟨.spent s index, .raised ⟨index, rfl, ?_⟩⟩
        cases there : s.faults[index]? with
        | none =>
          rw [there] at found
          cases found
        | some f =>
          rw [there] at found
          exact congrArg some found
  | _ => exact ⟨.refl s, .value (by rintro _ ⟨_, same, -⟩; cases same) fun _ same => same⟩

theorem runOn_globalFor (call : Caller) (name : String) (s : Machine) :
    (globalFor call name).runOn s = (indexFor call (.table s.globals) (.text name)).runOn s := by
  rw [globalFor, runOn_bind_ok (runOn_get s)]

/-- A global variable that is set needs no metatable to be found. -/
theorem runOn_globalFor_held {v : Value} (held : s.held s.globals name = v) (present : v ≠ .nil)
    (crosses : v.Crosses) :
    (globalFor call name).runOn s = (.ok v, s.searched s.globals name) :=
  (runOn_globalFor call name s).trans (runOn_indexFor held present crosses)

theorem runOn_expectTable (id : TableId) (s : Machine) :
    (Published.expectTable (.table id)).runOn s = (.ok id, s) := rfl

/-- What is no table is refused as one. -/
theorem expectTable_refused {v : Value} (other : ∀ id, v ≠ .table id) (s : Machine) :
    ∃ e, (Published.expectTable v).runOn s = (.error (.error e), s) := by
  cases v with
  | table id => exact absurd rfl (other id)
  | _ => exact ⟨_, rfl⟩

/-- What is no function is refused as one. -/
theorem expectFunction_refused {v : Value} (other : ∀ id, v ≠ .function id) (s : Machine) :
    ∃ e, (Published.expectFunction v).runOn s = (.error (.error e), s) := by
  cases v with
  | function id => exact absurd rfl (other id)
  | _ => exact ⟨_, rfl⟩

/-- A lookup without a metatable runs no script: the host receives what the table has. -/
theorem runOn_indexFor_unaided (call : Caller) (unaided : s.Unaided id name) :
    (indexFor call (.table id) (.text name)).runOn s =
      (receive (s.held id name)).runOn (s.searched id name) := by
  have found : (index call {} (.table id) (.text name)).runOn s =
      (.ok (s.held id name), s.searched id name) := by
    by_cases absent : s.held id name = .nil
    · have nothing := runOn_metamethod_of_none "index"
        ((s.metatable_searched id name id).trans (unaided absent))
      obtain ⟨fuel, limit⟩ := chainLimit_pos
      rw [index, limit, indexFrom]
      dsimp only
      rw [runOn_bind_ok (runOn_lookup id name s), absent, if_neg (by decide), runOn_bind_ok nothing]
      rfl
    · exact runOn_index absent
  exact runOn_indexFor_of_index found

/-- The host gets what a table has, if that needs no metatable. -/
theorem indexFor_received (call : Caller) (unaided : s.Unaided id name) :
    s.Resembles ((indexFor call (.table id) (.text name)).runOn s).2 ∧
      Received s (s.held id name) ((indexFor call (.table id) (.text name)).runOn s).1 := by
  rw [runOn_indexFor_unaided call unaided]
  obtain ⟨same, received⟩ := receive_received (ε := ScriptError) (s.held id name)
    (s.searched id name)
  exact ⟨(Resembles.searched s id name).trans same, received.of_searched⟩

/-- A caught panic is found without a metatable, and goes on. -/
theorem runOn_indexFor_raised (call : Caller) {text : String}
    (raises : s.Raises (s.held id name) text) : ∃ t, s.Resembles t ∧
      (indexFor call (.table id) (.text name)).runOn s = (.error (.panic text), t) := by
  have unaided : s.Unaided id name := by
    obtain ⟨index, same, -⟩ := raises
    intro absent
    cases same.symm.trans absent
  obtain ⟨same, received⟩ := indexFor_received call unaided
  rcases run : (indexFor call (.table id) (.text name)).runOn s with ⟨result, t⟩
  rw [run] at same received
  cases received with
  | raised also => exact ⟨t, same, by rw [raises.unique also]⟩
  | value calm _ => exact absurd raises (calm text)

end ScriptM

end ScriptHost
