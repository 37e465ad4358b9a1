import ScriptHost.Boundary.Collection
import ScriptHost.Proofs.Lookups

/-!
# What a collection takes away

A collection clears entries of weak tables and leaves all other entries as they are.
-/

namespace ScriptHost

namespace Machine

/-! ## Lost entries -/

/-- A table without an entry loses none. -/
theorem held_entering_nil (s : Machine) (id other : TableId) (name x : String) :
    (s.entering id name .nil).held other x =
      if other = id ∧ x = name then .nil else s.held other x := by
  by_cases here : other = id
  · subst here
    by_cases known : other.index < s.tables.size
    · rw [held_entering known]
      simp only [true_and]
    · have beyond : s.tables.size ≤ other.index := Nat.le_of_not_lt known
      have still : (s.entering other name .nil).tables.size ≤ other.index := by
        rwa [entering, Array.size_modify]
      rw [held_eq_nil_of_le beyond, ite_self, held_eq_nil_of_le still]
  · have apart : id.index ≠ other.index := by
      intro same
      cases id
      cases other
      exact here (congrArg TableId.mk same.symm)
    rw [if_neg fun both => here both.1, held_entering_other apart]

/-- Some entries are lost, and the others stay. -/
def Loses (s t : Machine) : Prop := ∀ id x, t.held id x = s.held id x ∨ t.held id x = .nil

theorem Loses.absent {s t : Machine} (loses : s.Loses t) {id : TableId} {x : String}
    (absent : s.held id x = .nil) : t.held id x = .nil :=
  (loses id x).elim (fun same => same.trans absent) fun lost => lost

theorem loses_entering_nil (s : Machine) (id : TableId) (name : String) :
    s.Loses (s.entering id name .nil) := by
  intro other x
  rw [held_entering_nil]
  split
  · exact .inr rfl
  · exact .inl rfl

/-! ## Collections -/

/-- A table whose metatable asks for weak keys or weak values. -/
def IsWeak (s : Machine) (id : TableId) : Prop :=
  ∃ fields bytes, (s.tables[id.index]?.getD default).metatable = some fields ∧
    s.held fields "__mode" = .str bytes ∧
      (bytes.data.contains 'k'.toUInt8 ∨ bytes.data.contains 'v'.toUInt8)

theorem isWeak_of_weakness {s : Machine} {id : TableId} {t : Table}
    (there : s.tables[id.index]? = some t) (weak : s.weakness t ≠ (false, false)) :
    s.IsWeak id := by
  unfold weakness at weak
  split at weak
  · exact absurd rfl weak
  · next fields found =>
    obtain ⟨other, metatable, lookup⟩ := Option.bind_eq_some_iff.1 found
    split at weak
    · next bytes mode =>
      refine ⟨other, bytes, by rw [there]; exact metatable, by rw [held, lookup]; exact mode, ?_⟩
      by_cases keys : bytes.data.contains 'k'.toUInt8 = true
      · exact .inl keys
      · by_cases values : bytes.data.contains 'v'.toUInt8 = true
        · exact .inr values
        · rw [Bool.not_eq_true] at keys values
          rw [keys, values] at weak
          exact absurd rfl weak
    · exact absurd rfl weak

/-- A table is not made weak by the loss of entries. -/
theorem Loses.isWeak {s t : Machine} (loses : s.Loses t)
    (metatables : s.KeepsMetatables t) {id : TableId} (weak : t.IsWeak id) : s.IsWeak id := by
  obtain ⟨fields, bytes, metatable, mode, asks⟩ := weak
  refine ⟨fields, bytes, metatables id ▸ metatable, ?_, asks⟩
  rcases loses fields "__mode" with same | lost
  · exact same.symm.trans mode
  · cases mode.symm.trans lost

/-- A machine whose weak tables may have lost entries. -/
structure Swept (s t : Machine) : Prop extends s.Keeps t where
  held : ∀ id x, t.held id x = s.held id x ∨ s.IsWeak id ∧ t.held id x = .nil

theorem Swept.refl (s : Machine) : s.Swept s := ⟨.refl s, fun _ _ => .inl rfl⟩

theorem Swept.loses {s t : Machine} (swept : s.Swept t) : s.Loses t :=
  fun id x => (swept.held id x).imp_right And.right

/-- A collection takes entries out of weak tables only. -/
theorem swept_collect (s : Machine) (spared : List Value) : s.Swept (s.collect spared) := by
  refine ⟨⟨rfl, rfl, fun _ => rfl⟩, fun id x => ?_⟩
  obtain ⟨found, swept⟩ : ∃ found, (s.collect spared).tables = s.tables.map (s.sweep found) :=
    ⟨_, rfl⟩
  rw [held, held, swept, Array.getElem?_map]
  cases there : s.tables[id.index]? with
  | none => exact .inl rfl
  | some t =>
    rw [Option.map_some, Option.getD_some, Option.getD_some, sweep]
    split
    · exact .inl rfl
    · next weakKeys weakValues asked weakness =>
      have weak : s.IsWeak id := by
        refine isWeak_of_weakness there fun firm => ?_
        obtain ⟨rfl, rfl⟩ := Prod.mk.inj (weakness.symm.trans firm)
        exact asked rfl rfl
      exact (t.get_clear _ _).imp_right fun lost => ⟨weak, lost⟩

end Machine

end ScriptHost
