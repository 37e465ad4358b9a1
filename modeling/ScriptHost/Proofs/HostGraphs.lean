import ScriptHost.Proofs.Conversion

/-!
# Tables of any form reach the host

A value reaches the host exactly if no chain of tables from it is longer than the limit, and then as
its unfolding.  Tables that are shared cost nothing; only a circle or a chain of too many different
tables is refused.  Two things that a table may hold end the conversion before any of this: a caught
panic goes on, and the text of a key may have no end.
-/

namespace ScriptHost

namespace Machine

variable {s : Machine} {v k : Value} {h : HostValue}

/-- A key that is no table has a text. -/
theorem Unfolds.text_isSome (unfolds : s.Unfolds k h) (noTable : ∀ id, k ≠ .table id)
    (objects : Objects) : (objects.text h).isSome := by
  cases unfolds with
  | proxy | list | map => exact absurd rfl (noTable _)
  | _ => rfl

/-- Tables without caught failures whose keys are no tables trouble no conversion. -/
theorem calm_of_pairs
    (pairs : ∀ id, s.Reaches v id → ∀ pair ∈ s.pairsOf id,
      (∀ other, pair.1 ≠ .table other) ∧ (∀ i, pair.1 ≠ .fault i) ∧ ∀ i, pair.2 ≠ .fault i) :
    s.Calm v := by
  refine fun id reaches => ⟨?_, ?_⟩
  · rintro text ⟨w, ⟨pair, inside, isHeld⟩, index, rfl, -⟩
    obtain ⟨-, key, value⟩ := pairs id reaches pair inside
    rcases isHeld with same | same
    · exact key index same.symm
    · exact value index same.symm
  · rintro ⟨pair, inside, h, unfolds, endless⟩
    have text := unfolds.text_isSome (pairs id reaches pair inside).1 s.objects
    simp [endless] at text

end Machine

namespace Crossing

open Machine MachineM

/--
What converting a value for the host ends with.  On a calm machine there is a result exactly if no
chain from the value is too long; a result is the unfolding; a refusal has its reason; and nothing
else happens unless a panic goes on or a key has no text.
-/
theorem toHost_outcome (s : Machine) (v : Value) :
    (s.Calm v →
      ((∃ h, ((toHost v).runOn s).1 = .ok h) ↔
        ∀ chain, s.Chain v chain → chain.length ≤ 128)) ∧
    (∀ h, ((toHost v).runOn s).1 = .ok h → s.Unfolds v h ∧ ∀ other, s.Unfolds v other → other = h) ∧
    (∀ e, ((toHost v).runOn s).1 = .error (.error e) →
      (e = .cyclic ∧ ∃ id, s.Reaches v id ∧ s.Circular id) ∨
      (e = .tooDeep 128 ∧ ∃ chain, s.Chain v chain ∧ chain.Nodup ∧ chain.length = 129)) ∧
    (∀ text, ((toHost v).runOn s).1 = .error (.panic text) →
      ∃ id, s.Reaches v id ∧ s.Alarming id text) ∧
    (((toHost v).runOn s).1 = .error .endless → ∃ id, s.Reaches v id ∧ s.Unnamed id) := by
  obtain ⟨h, u, run, -, unfolds, shallow⟩ | ⟨stop, u, run, stops⟩ :=
    hostValue_converts s depthLimit [] v s (.refl s)
  · have result : ((toHost v).runOn s).1 = .ok h := congrArg Prod.fst run
    rw [result]
    refine ⟨fun _ => ⟨fun _ => shallow, fun _ => ⟨h, rfl⟩⟩, ?_, nofun, nofun, nofun⟩
    rintro _ ⟨⟩
    exact ⟨unfolds, fun _ again => again.unique unfolds⟩
  · have result : ((toHost v).runOn s).1 = .error stop := congrArg Prod.fst run
    rw [result]
    refine ⟨fun calm => ⟨nofun, fun short => ?_⟩, nofun, ?_, ?_, ?_⟩
    · exfalso
      cases stops with
      | again reaches back =>
        obtain ⟨chain, isChain, long⟩ := reaches.chains_unbounded (back.resolve_left nofun) 129
        have := short chain isChain
        omega
      | deep isChain _ _ long =>
        have := short _ isChain
        rw [long, depthLimit] at this
        omega
      | alarm reaches alarming => exact (calm _ reaches).1 _ alarming
      | unnamed reaches unnamed => exact (calm _ reaches).2 unnamed
    · rintro e ⟨⟩
      cases stops with
      | again reaches back => exact .inl ⟨rfl, _, reaches, back.resolve_left nofun⟩
      | deep isChain distinct _ long => exact .inr ⟨rfl, _, isChain, distinct, long⟩
    · rintro text ⟨⟩
      cases stops with
      | alarm reaches alarming => exact ⟨_, reaches, alarming⟩
    · rintro ⟨⟩
      cases stops with
      | unnamed reaches unnamed => exact ⟨_, reaches, unnamed⟩

/-- A machine with a table that holds another one twice. -/
def tableShared : Machine where
  tables := #[((Table.bare 2 0 none).putItem 0 (.table ⟨1⟩)).putItem 1 (.table ⟨1⟩),
    (Table.bare 1 0 none).putItem 0 (.int 7)]

theorem pairsOf_tableShared (id : TableId) :
    ∀ pair ∈ tableShared.pairsOf id, (∃ i, pair.1 = .int i) ∧
      (id.index = 0 ∧ pair.2 = .table ⟨1⟩ ∨ id.index = 1 ∧ pair.2 = .int 7) := by
  intro pair inside
  obtain ⟨_ | _ | index⟩ := id
  · have pairs : tableShared.pairsOf ⟨0⟩ = [(.int 1, .table ⟨1⟩), (.int 2, .table ⟨1⟩)] := rfl
    rw [pairs] at inside
    rcases List.mem_pair.1 inside with rfl | rfl <;> exact ⟨⟨_, rfl⟩, .inl ⟨rfl, rfl⟩⟩
  · have pairs : tableShared.pairsOf ⟨1⟩ = [(.int 1, .int 7)] := rfl
    rw [pairs, List.mem_singleton] at inside
    exact ⟨⟨1, by rw [inside]⟩, .inr ⟨rfl, by rw [inside]⟩⟩
  · cases inside

/-- A table that is held twice reaches the host. -/
theorem toHost_tableShared :
    tableShared.Calm (.table ⟨0⟩) ∧
      (∀ chain, tableShared.Chain (.table ⟨0⟩) chain → chain.length ≤ 128) ∧
      ∃ h, ((toHost (.table ⟨0⟩)).runOn tableShared).1 = .ok h := by
  have calm : tableShared.Calm (.table ⟨0⟩) := by
    refine calm_of_pairs fun id _ pair inside => ?_
    obtain ⟨⟨i, key⟩, ⟨-, value⟩ | ⟨-, value⟩⟩ := pairsOf_tableShared id pair inside
    · simp [key, value]
    · simp [key, value]
  have inner : tableShared.Shallow (.table ⟨1⟩) 1 := by
    refine shallow_table fun v ⟨pair, inside, same⟩ => shallow_of_ne_table ?_
    obtain ⟨⟨i, key⟩, ⟨other, -⟩ | ⟨-, value⟩⟩ := pairsOf_tableShared _ pair inside
    · cases other
    · rcases same with rfl | rfl
      · simp [key]
      · simp [value]
  have shallow : tableShared.Shallow (.table ⟨0⟩) 2 := by
    refine shallow_table fun v ⟨pair, inside, same⟩ => ?_
    obtain ⟨⟨i, key⟩, ⟨-, value⟩ | ⟨other, -⟩⟩ := pairsOf_tableShared _ pair inside
    · rcases same with rfl | rfl
      · exact key ▸ shallow_of_ne_table nofun
      · exact value ▸ inner
    · cases other
  have short (chain) (isChain : tableShared.Chain (.table ⟨0⟩) chain) : chain.length ≤ 128 :=
    Nat.le_trans (shallow chain isChain) (by decide)
  exact ⟨calm, short, ((toHost_outcome tableShared (.table ⟨0⟩)).1 calm).2 short⟩

/-- A machine whose only table holds a caught panic. -/
def panicHeld : Machine where
  tables := #[(Table.bare 1 0 none).putItem 0 (.fault 0)]
  faults := #[.panic (some "kaboom")]

/-- A machine with a pointer to an object that leads back to itself, as a key of a table. -/
def endlessKey : Machine :=
  ((do
    enable
    let key ← toScript (.ptr (some ⟨0⟩))
    let id ← newTable
    rawSet id key (.bool true)).runOn
      { objects.instances := #[{
          shape := ⟨"Loop", "", [.visible "self" .ptr .any]⟩
          fields := [.any (.ptr (some ⟨0⟩))] }] }).2

theorem pairsOf_panicHeld : panicHeld.pairsOf ⟨0⟩ = [(.int 1, .fault 0)] := rfl

theorem pairsOf_endlessKey : endlessKey.pairsOf ⟨1⟩ = [(.table ⟨0⟩, .bool true)] :=
  Table.live_of_single (.table ⟨0⟩) nofun fun other =>
    (Table.get_set .empty (.table ⟨0⟩) (.bool true) other).trans (by simp [Table.empty])

/-- On machines that are not calm, short chains are not enough. -/
theorem toHost_needs_calm :
    ((∀ chain, panicHeld.Chain (.table ⟨0⟩) chain → chain.length ≤ 128) ∧
      ((toHost (.table ⟨0⟩)).runOn panicHeld).1 = .error (.panic "kaboom")) ∧
    (∀ chain, endlessKey.Chain (.table ⟨1⟩) chain → chain.length ≤ 128) ∧
      ((toHost (.table ⟨1⟩)).runOn endlessKey).1 = .error .endless := by
  have entries : (entriesOf ⟨1⟩).runOn endlessKey =
      (.ok [(.table ⟨0⟩, .bool true)], endlessKey) := by
    rw [entriesOf, runOn_bind_ok (runOn_table _ _)]
    change ((endlessKey.pairsOf ⟨1⟩).mapM receiveEntry).runOn endlessKey = _
    rw [pairsOf_endlessKey]
    rfl
  refine ⟨⟨fun chain isChain => ?_, ?_⟩, fun chain isChain => ?_, ?_⟩
  · have shallow : panicHeld.Shallow (.table ⟨0⟩) 1 := by
      refine shallow_table ?_
      rintro v ⟨pair, inside, same⟩
      refine shallow_of_ne_table ?_
      rw [pairsOf_panicHeld, List.mem_singleton] at inside
      rcases same with rfl | rfl <;> simp [inside]
    exact Nat.le_trans (shallow chain isChain) (by decide)
  · rw [toHost, depthLimit, hostValue_table_succ]
    rfl
  · have shallow : endlessKey.Shallow (.table ⟨1⟩) 1 := by
      refine shallow_table ?_
      rintro v ⟨pair, inside, same⟩ chain isChain
      rw [pairsOf_endlessKey, List.mem_singleton] at inside
      obtain rfl := inside
      rcases same with rfl | rfl
      · cases isChain.head_plain
      · cases isChain
    exact Nat.le_trans (shallow chain isChain) (by decide)
  · have plain : endlessKey.unwrap? ⟨1⟩ = none := rfl
    rw [toHost, depthLimit, hostValue_table_succ, runOn_bind_ok (runOn_get _), plain]
    simp only [List.not_mem_nil, if_false]
    have key : (hostValue 127 [⟨1⟩] (.table ⟨0⟩)).runOn endlessKey =
        (.ok (.ptr (some ⟨0⟩)), endlessKey) := by
      rw [hostValue_table_succ]
      rfl
    have unnamed : (textKey (.ptr (some ⟨0⟩))).runOn endlessKey = (.error .endless, endlessKey) := by
      have endless : endlessKey.objects.text (.ptr (some ⟨0⟩)) = none := rfl
      rw [runOn_textKey, endless]
    have mixed : sequence? [(.table ⟨0⟩, .bool true)] = none := rfl
    rw [runOn_bind_ok entries, contents, mixed, List.mapM_cons, namedEntry]
    simp only [bind_assoc]
    rw [runOn_bind_ok key, runOn_bind_stop unnamed]

end Crossing

end ScriptHost
