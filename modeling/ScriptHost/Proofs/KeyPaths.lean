import ScriptHost.Proofs.Unfolding

/-!
# Ways along keys

Keys lead from a table to what it holds, and on from there if that is a table.  Tables may share
what they hold and may hold each other, so a way may come to a table again; what lies on some way
lies on one that comes to no table twice.
-/

namespace ScriptHost

namespace Machine

/-- Keys lead from a value to another one. -/
inductive Way (s : Machine) : Value → List Value → Value → Prop where
  | here (v : Value) : Way s v [] v
  | inside {id : TableId} {key v x : Value} {keys : List Value}
      (isPair : (key, v) ∈ s.pairsOf id) (onward : Way s v keys x) :
      Way s (.table id) (key :: keys) x

/--
Keys lead from a value to another one through no table twice, and through none of those passed
before; the other value is no such table either.
-/
inductive SimpleWay (s : Machine) : List TableId → Value → List Value → Value → Prop where
  | here {passed : List TableId} {v : Value} (apart : ∀ id, v = .table id → id ∉ passed) :
      SimpleWay s passed v [] v
  | inside {passed : List TableId} {id : TableId} {key v x : Value} {keys : List Value}
      (apart : id ∉ passed) (isPair : (key, v) ∈ s.pairsOf id)
      (onward : SimpleWay s (id :: passed) v keys x) :
      SimpleWay s passed (.table id) (key :: keys) x

variable {s t : Machine} {v w x y : Value} {keys : List Value} {id : TableId}
  {passed : List TableId}

theorem way_nil : s.Way v [] x ↔ x = v := by
  constructor
  · intro way
    cases way
    rfl
  · rintro rfl
    exact .here _

/-- Nothing lies behind a value that is no table. -/
theorem Way.of_ne_table (noTable : ∀ id, v ≠ .table id) (way : s.Way v keys x) :
    keys = [] ∧ x = v := by
  cases way with
  | here => exact ⟨rfl, rfl⟩
  | inside => exact absurd rfl (noTable _)

/-- Ways from a value stay what they are while the tables on them hold the same. -/
theorem way_congr
    (same : ∀ keys id, s.Way v keys (.table id) → t.pairsOf id = s.pairsOf id) :
    t.Way v keys x ↔ s.Way v keys x := by
  constructor
  · intro way
    induction way with
    | here => exact .here _
    | @inside id key w _ rest isPair _ ih =>
      rw [same [] id (.here _)] at isPair
      exact .inside isPair (ih fun keys other onward =>
        same (key :: keys) other (.inside isPair onward))
  · intro way
    induction way with
    | here => exact .here _
    | @inside id key w _ rest isPair _ ih =>
      refine .inside (same [] id (.here _) ▸ isPair) (ih fun keys other onward => ?_)
      exact same (key :: keys) other (.inside isPair onward)

theorem SimpleWay.way (simple : s.SimpleWay passed v keys x) : s.Way v keys x := by
  induction simple with
  | here => exact .here _
  | inside _ isPair _ ih => exact .inside isPair ih

/--
A way is made simple by leaving out what lies between two visits of a table, unless it leads through
a table passed before.
-/
theorem Way.simple_or_passed (way : s.Way v keys x) (passed : List TableId) :
    (∃ keys', s.SimpleWay passed v keys' x) ∨
      ∃ id ∈ passed, ∃ keys', keys'.length ≤ keys.length ∧ s.Way (.table id) keys' x := by
  generalize bound : keys.length = n
  induction n using Nat.strongRecOn generalizing v keys passed with
  | ind n ih =>
    subst bound
    by_cases again : ∃ id ∈ passed, v = .table id
    · obtain ⟨id, isPassed, rfl⟩ := again
      exact .inr ⟨id, isPassed, keys, Nat.le_refl _, way⟩
    · cases way with
      | here => exact .inl ⟨[], .here fun id same isPassed => again ⟨id, isPassed, same⟩⟩
      | @inside id key w _ rest isPair onward =>
        have apart : id ∉ passed := fun isPassed => again ⟨id, isPassed, rfl⟩
        rcases ih rest.length (Nat.lt_succ_self _) onward (id :: passed) rfl with
          ⟨keys', simple⟩ | ⟨other, among, keys', short, back⟩
        · exact .inl ⟨key :: keys', .inside apart isPair simple⟩
        · rcases List.mem_cons.1 among with rfl | isPassed
          · -- the way comes back to where it is now: the rest of it starts here
            have shorter := Nat.lt_succ_of_le short
            rcases ih keys'.length shorter back passed rfl with found | ⟨third, isPassed, found⟩
            · exact .inl found
            · obtain ⟨keys'', shortest, back⟩ := found
              exact .inr ⟨third, isPassed, keys'',
                Nat.le_trans shortest (Nat.le_of_lt shorter), back⟩
          · exact .inr ⟨other, isPassed, keys', Nat.le_succ_of_le short, back⟩

/-- What keys lead to is found on a simple way. -/
theorem Way.simple (way : s.Way v keys x) : ∃ keys', s.SimpleWay [] v keys' x := by
  rcases way.simple_or_passed [] with found | ⟨id, isPassed, -⟩
  · exact found
  · exact absurd isPassed List.not_mem_nil

end Machine

end ScriptHost
