import ScriptHost.Proofs.Growth
import ScriptHost.Proofs.Snapshots

/-!
# What becomes of a snapshot

A snapshot becomes tables that were not there before: one for every table in it, with the tables of
each part in a region of their own.  So keys lead to the same parts as in the snapshot, and to no
table on two ways.
-/

namespace ScriptHost

namespace Machine

/-- What stands in a machine for a part of a snapshot. -/
inductive Stands (t : Machine) : Snapshot → Value → Prop where
  | bool (b : Bool) : Stands t (.bool b) (.bool b)
  | int (i : Int64) : Stands t (.int i) (.int i)
  | float (x : Binary64) : Stands t (.float x) (.float x)
  | text (s : String) : Stands t (.str s) (.text s)
  | table (entries : List (Snapshot × Snapshot)) (id : TableId) :
      Stands t (.table entries) (.table id)
  | function {handle : GuestFunction} {id : FunctionId}
      (found : t.functions[id.index]? = some (.native (.placeholder handle.path))) :
      Stands t (.function handle) (.function id)

/-- A machine that got tables and functions, and perhaps entries in one of its tables. -/
structure Gains (id : TableId) (s t : Machine) : Prop where
  rest : t = { s with tables := t.tables, functions := t.functions }
  size_le : s.tables.size ≤ t.tables.size
  tables : ∀ other : TableId, other ≠ id → other.index < s.tables.size →
    t.tables[other.index]? = s.tables[other.index]?
  functions : ∃ more, t.functions = s.functions ++ more

/--
A value that became of a snapshot.  Its tables lie in a region of the machine, have no metatables,
and each one lies on one way.
-/
structure Rebuilt (t : Machine) (low high : Nat) (snap : Snapshot) (v : Value) : Prop where
  shown : ∀ keys part, snap.At keys part → ∃ y, t.Way v keys y ∧ t.Stands part y
  only : ∀ keys y, t.Way v keys y → ∃ part, snap.At keys part ∧ t.Stands part y
  fresh : ∀ keys id, t.Way v keys (.table id) → low ≤ id.index ∧ id.index < high ∧
    ∃ table, t.tables[id.index]? = some table ∧ table.metatable = none
  apart : ∀ keys keys' id, t.Way v keys (.table id) → t.Way v keys' (.table id) → keys = keys'

/-- The pairs that rows of a snapshot became, each with a region of its own. -/
inductive Spread (t : Machine) :
    Nat → Nat → List (Snapshot × Snapshot) → List (Value × Value) → Prop where
  | nil (low : Nat) : Spread t low low [] []
  | cons {low middle high : Nat} {k item : Snapshot} {v : Value}
      {rows : List (Snapshot × Snapshot)} {pairs : List (Value × Value)}
      (below : low ≤ middle) (first : t.Rebuilt low middle item v)
      (others : Spread t middle high rows pairs) :
      Spread t low high ((k, item) :: rows) ((k.key, v) :: pairs)

variable {s t u : Machine} {id : TableId} {low middle high : Nat} {snap item : Snapshot}
  {v w : Value} {rows : List (Snapshot × Snapshot)} {pairs : List (Value × Value)}

theorem Stands.ne_nil (stands : t.Stands item v) : v ≠ .nil := by
  rintro rfl
  cases stands

theorem Stands.mono (later : ∃ more, u.functions = t.functions ++ more)
    (stands : t.Stands item v) : u.Stands item v := by
  obtain ⟨more, functions⟩ := later
  cases stands with
  | bool b => exact .bool b
  | int i => exact .int i
  | float x => exact .float x
  | text s => exact .text s
  | table entries id => exact .table entries id
  | function found =>
    have known := (Array.getElem?_eq_some_iff.1 found).1
    exact .function (by rw [functions, Array.getElem?_append_left known, found])

namespace Gains

theorem trans (first : Gains id s t) (second : Gains id t u) : Gains id s u where
  rest := by rw [second.rest, first.rest]
  size_le := Nat.le_trans first.size_le second.size_le
  tables other different inside :=
    (second.tables other different (Nat.lt_of_lt_of_le inside first.size_le)).trans
      (first.tables other different inside)
  functions := by
    obtain ⟨more, functions⟩ := first.functions
    obtain ⟨others, again⟩ := second.functions
    exact ⟨more ++ others, by rw [again, functions, Array.append_assoc]⟩

theorem refl (id : TableId) (s : Machine) : Gains id s s :=
  ⟨rfl, Nat.le_refl _, fun _ _ _ => rfl, #[], (Array.append_empty).symm⟩

/-- What changes a new table at most leaves any other one out as well. -/
theorem elsewhere {other : TableId} (gains : Gains id s t) (new : s.tables.size ≤ id.index) :
    Gains other s t :=
  ⟨gains.rest, gains.size_le, fun third _ inside =>
    gains.tables third (by rintro rfl; omega) inside, gains.functions⟩

theorem newTable (id : TableId) (s : Machine) (table : Table) :
    Gains id s { s with tables := s.tables.push table } where
  rest := rfl
  size_le := by simp
  tables other _ inside := by simp [Array.getElem?_push, Nat.ne_of_lt inside]
  functions := ⟨#[], (Array.append_empty).symm⟩

theorem newFunction (id : TableId) (s : Machine) (f : Function) :
    Gains id s { s with functions := s.functions.push f } where
  rest := rfl
  size_le := Nat.le_refl _
  tables _ _ _ := rfl
  functions := ⟨#[f], Array.push_eq_append⟩

theorem modifyTable (id : TableId) (s : Machine) (f : Table → Table) :
    Gains id s { s with tables := s.tables.modify id.index f } where
  rest := rfl
  size_le := by simp
  tables _ different _ := getElem?_modify_of_ne different f
  functions := ⟨#[], (Array.append_empty).symm⟩

end Gains

/-! ## Regions -/

/-- What became of a snapshot stays that while its region is left alone. -/
theorem Rebuilt.keep (rebuilt : t.Rebuilt low high snap v)
    (same : ∀ id : TableId, low ≤ id.index → id.index < high →
      u.tables[id.index]? = t.tables[id.index]?)
    (later : ∃ more, u.functions = t.functions ++ more) : u.Rebuilt low high snap v := by
  have ways {keys : List Value} {y : Value} : u.Way v keys y ↔ t.Way v keys y :=
    way_congr fun keys id way => by
      obtain ⟨above, below, -⟩ := rebuilt.fresh keys id way
      exact pairsOf_congr (same id above below)
  constructor
  · intro keys part isPart
    obtain ⟨y, way, stands⟩ := rebuilt.shown keys part isPart
    exact ⟨y, ways.2 way, stands.mono later⟩
  · intro keys y way
    obtain ⟨part, isPart, stands⟩ := rebuilt.only keys y (ways.1 way)
    exact ⟨part, isPart, stands.mono later⟩
  · intro keys id way
    obtain ⟨above, below, table, found, bare⟩ := rebuilt.fresh keys id (ways.1 way)
    exact ⟨above, below, table, (same id above below).trans found, bare⟩
  · intro keys keys' id way again
    exact rebuilt.apart keys keys' id (ways.1 way) (ways.1 again)

namespace Spread

theorem le (spread : t.Spread low high rows pairs) : low ≤ high := by
  induction spread with
  | nil => exact Nat.le_refl _
  | cons below _ _ ih => exact Nat.le_trans below ih

theorem keys (spread : t.Spread low high rows pairs) :
    pairs.map (·.1) = rows.map (·.1.key) := by
  induction spread with
  | nil => rfl
  | cons _ _ _ ih => rw [List.map_cons, List.map_cons, ih]

/-- Each row became a pair, in a part of the region. -/
theorem exists_pair (spread : t.Spread low high rows pairs) {k : Snapshot}
    (isRow : (k, item) ∈ rows) :
    ∃ v a b, (k.key, v) ∈ pairs ∧ t.Rebuilt a b item v := by
  induction spread with
  | nil => cases isRow
  | @cons low middle _ _ _ v _ _ _ first _ ih =>
    rcases List.mem_cons.1 isRow with same | later
    · cases same
      exact ⟨v, low, middle, List.mem_cons_self, first⟩
    · obtain ⟨v, a, b, isPair, rebuilt⟩ := ih later
      exact ⟨v, a, b, List.mem_cons_of_mem _ isPair, rebuilt⟩

/-- Each pair became of a row, in a part of the region. -/
theorem exists_row (spread : t.Spread low high rows pairs) {key : Value}
    (isPair : (key, v) ∈ pairs) :
    ∃ (k item : Snapshot) (a b : Nat), k.key = key ∧ (k, item) ∈ rows ∧ low ≤ a ∧ b ≤ high ∧
      t.Rebuilt a b item v := by
  induction spread with
  | nil => cases isPair
  | @cons low middle _ k item _ _ _ below first others ih =>
    rcases List.mem_cons.1 isPair with same | later
    · cases same
      exact ⟨k, item, low, middle, rfl, List.mem_cons_self, Nat.le_refl _, others.le, first⟩
    · obtain ⟨k, item, a, b, same, isRow, above, under, rebuilt⟩ := ih later
      exact ⟨k, item, a, b, same, List.mem_cons_of_mem _ isRow, Nat.le_trans below above, under,
        rebuilt⟩

/-- A table that two pairs lead to is led to by one way: the regions of pairs are apart. -/
theorem apart (spread : t.Spread low high rows pairs) {key key' v v' : Value}
    {keys keys' : List Value} (isPair : (key, v) ∈ pairs) (isPair' : (key', v') ∈ pairs)
    (way : t.Way v keys (.table id)) (way' : t.Way v' keys' (.table id)) :
    key :: keys = key' :: keys' := by
  induction spread with
  | nil => cases isPair
  | @cons _ middle _ _ _ _ _ pairs below first others ih =>
    have inOthers {key v : Value} {keys : List Value} (isPair : (key, v) ∈ pairs)
        (way : t.Way v keys (.table id)) : middle ≤ id.index := by
      obtain ⟨k, item, a, b, -, -, above, -, rebuilt⟩ := others.exists_row isPair
      exact Nat.le_trans above (rebuilt.fresh keys id way).1
    rcases List.mem_cons.1 isPair with same | later
    · cases same
      rcases List.mem_cons.1 isPair' with same' | later'
      · cases same'
        rw [first.apart keys keys' id way way']
      · have inFirst := (first.fresh keys id way).2.1
        have inRest := inOthers later' way'
        omega
    · rcases List.mem_cons.1 isPair' with same' | later'
      · cases same'
        have inFirst := (first.fresh keys' id way').2.1
        have inRest := inOthers later way
        omega
      · exact ih later later'

end Spread

/-- A table is what became of rows if it holds the pairs that these became. -/
theorem Rebuilt.table {table : Table} (found : t.tables[id.index]? = some table)
    (bare : table.metatable = none) (holds : ∀ key y, (key, y) ∈ table.live ↔ (key, y) ∈ pairs)
    (spread : t.Spread (id.index + 1) high rows pairs) :
    t.Rebuilt id.index high (.table rows) (.table id) := by
  have isPair {key y : Value} : (key, y) ∈ t.pairsOf id ↔ (key, y) ∈ pairs := by
    rw [pairsOf, found]
    exact holds key y
  have bounds {key y : Value} {keys : List Value} {other : TableId} (inPairs : (key, y) ∈ pairs)
      (way : t.Way y keys (.table other)) : id.index + 1 ≤ other.index ∧ other.index < high ∧
        ∃ table, t.tables[other.index]? = some table ∧ table.metatable = none := by
    obtain ⟨k, item, a, b, -, -, above, under, rebuilt⟩ := spread.exists_row inPairs
    obtain ⟨start, stop, plain⟩ := rebuilt.fresh keys other way
    exact ⟨Nat.le_trans above start, Nat.lt_of_lt_of_le stop under, plain⟩
  constructor
  · intro keys part isPart
    cases isPart with
    | here => exact ⟨.table id, .here _, .table rows id⟩
    | inside isRow onward =>
      obtain ⟨v, a, b, inPairs, rebuilt⟩ := spread.exists_pair isRow
      obtain ⟨y, way, stands⟩ := rebuilt.shown _ _ onward
      exact ⟨y, .inside (isPair.2 inPairs) way, stands⟩
  · intro keys y way
    cases way with
    | here => exact ⟨.table rows, .here rfl, .table rows id⟩
    | inside inTable onward =>
      obtain ⟨k, item, a, b, rfl, isRow, -, -, rebuilt⟩ := spread.exists_row (isPair.1 inTable)
      obtain ⟨part, isPart, stands⟩ := rebuilt.only _ _ onward
      exact ⟨part, .inside isRow isPart, stands⟩
  · intro keys other way
    cases way with
    | here => exact ⟨Nat.le_refl _, Nat.lt_of_lt_of_le (Nat.lt_succ_self _) spread.le, table,
        found, bare⟩
    | inside inTable onward =>
      obtain ⟨above, below, plain⟩ := bounds (isPair.1 inTable) onward
      exact ⟨Nat.le_of_succ_le above, below, plain⟩
  · intro keys keys' other way way'
    cases way with
    | here =>
      cases way' with
      | here => rfl
      | inside inTable onward =>
        exact absurd (bounds (isPair.1 inTable) onward).1 (Nat.not_succ_le_self _)
    | inside inTable onward =>
      cases way' with
      | here => exact absurd (bounds (isPair.1 inTable) onward).1 (Nat.not_succ_le_self _)
      | inside inTable' onward' =>
        exact spread.apart (isPair.1 inTable) (isPair.1 inTable') onward onward'

end Machine

namespace Snapshot

open Machine MachineM

variable {s : Machine} {id : TableId} {rows : List (Snapshot × Snapshot)}

/-- A snapshot becomes a value in a region of new tables; nothing else changes. -/
def Rebuilds (snap : Snapshot) : Prop :=
  ∀ s : Machine, ∃ v t, (rebuild snap).runOn s = (.ok v, t) ∧ Gains ⟨s.tables.size⟩ s t ∧
    t.Rebuilt s.tables.size t.tables.size snap v

theorem rebuild_key {k : Snapshot} (isKey : Table.isKey k.key) : rebuild k = pure k.key := by
  cases k with
  | bool b => rw [rebuild, key]
  | int i => rw [rebuild, key]
  | float x => rw [rebuild, key]
  | str text => rw [rebuild, key]
  | _ => cases isKey

/-- Rows become pairs that are set in a table, each value in a region of its own. -/
theorem runOn_rebuildEntries (known : id.index < s.tables.size)
    (keys : ∀ row ∈ rows, Table.isKey row.1.key) (items : ∀ row ∈ rows, row.2.Rebuilds) :
    ∃ pairs t, (rebuildEntries id rows).runOn s = (.ok (), t) ∧ Gains id s t ∧
      t.Spread s.tables.size t.tables.size rows pairs ∧
      t.tables[id.index]? = s.tables[id.index]?.map
        fun table => pairs.foldl (fun t pair => t.set pair.1 pair.2) table := by
  induction rows generalizing s with
  | nil =>
    refine ⟨[], s, by rw [rebuildEntries]; rfl, .refl id s, .nil _, ?_⟩
    cases s.tables[id.index]? <;> rfl
  | cons row rest ih =>
    obtain ⟨k, item⟩ := row
    obtain ⟨isKey, keys⟩ := List.forall_mem_cons.1 keys
    obtain ⟨first, items⟩ := List.forall_mem_cons.1 items
    dsimp only at isKey first
    obtain ⟨v, t, made, gains, rebuilt⟩ := first s
    have grows : Gains id s t := gains.elsewhere (Nat.le_refl _)
    have within := Nat.lt_of_lt_of_le known gains.size_le
    let set : Machine := { t with tables := t.tables.modify id.index (·.set k.key v) }
    have sizes : set.tables.size = t.tables.size := by simp [set]
    obtain ⟨pairs, u, run, onward, spread, content⟩ := ih (s := set) (sizes ▸ within) keys items
    rw [sizes] at spread
    have kept := (Gains.modifyTable id t (·.set k.key v)).trans onward
    refine ⟨(k.key, v) :: pairs, u, ?_, grows.trans kept, .cons gains.size_le ?_ spread, ?_⟩
    · rw [rebuildEntries, rebuild_key isKey, pure_bind, runOn_bind_ok made, if_pos isKey,
        runOn_bind_ok (runOn_rawSet id k.key v t)]
      exact run
    · -- later rows change the table itself and get tables of their own, past this region
      refine rebuilt.keep (fun other above below => kept.tables other ?_ below) kept.functions
      rintro rfl
      omega
    · have same : t.tables[id.index]? = s.tables[id.index]? :=
        gains.tables id (by rintro rfl; exact absurd known (Nat.lt_irrefl _)) known
      rw [content, Array.getElem?_modify, if_pos rfl, same, Option.map_map]
      rfl

theorem at_leaf {snap part : Snapshot} {keys : List Value} (flat : ∀ rows, snap ≠ .table rows)
    (present : snap.isNil = false) : snap.At keys part ↔ keys = [] ∧ part = snap := by
  constructor
  · intro isPart
    cases isPart with
    | here => exact ⟨rfl, rfl⟩
    | inside => exact absurd rfl (flat _)
  · rintro ⟨rfl, rfl⟩
    exact .here present

section Leaves

variable {snap : Snapshot} (flat : ∀ rows, snap ≠ .table rows) (present : snap.isNil = false)

include flat present

/-- A snapshot without parts becomes what stands for it. -/
theorem Rebuilds.of_leaf
    (made : ∀ s : Machine, ∃ v t, (rebuild snap).runOn s = (.ok v, t) ∧
      Gains ⟨s.tables.size⟩ s t ∧ t.Stands snap v) : snap.Rebuilds := by
  intro s
  obtain ⟨v, t, run, gains, stands⟩ := made s
  have noTable : ∀ id, v ≠ .table id := by
    rintro id rfl
    cases stands
    exact flat _ rfl
  refine ⟨v, t, run, gains, ?_⟩
  constructor
  · intro keys part isPart
    obtain ⟨rfl, rfl⟩ := (at_leaf flat present).1 isPart
    exact ⟨v, .here v, stands⟩
  · intro keys y way
    obtain ⟨rfl, rfl⟩ := way.of_ne_table noTable
    exact ⟨snap, .here present, stands⟩
  · intro keys id way
    obtain ⟨-, same⟩ := way.of_ne_table noTable
    exact absurd same.symm (noTable id)
  · intro keys keys' id way
    obtain ⟨-, same⟩ := way.of_ne_table noTable
    exact absurd same.symm (noTable id)

theorem Rebuilds.of_scalar {v : Value} (same : rebuild snap = pure v)
    (stands : ∀ t : Machine, t.Stands snap v) : snap.Rebuilds := by
  refine .of_leaf flat present fun s => ⟨v, s, ?_, .refl _ s, stands s⟩
  rw [same]
  rfl

end Leaves

/-- A table becomes a new table that holds what its rows become. -/
theorem Rebuilds.table (keys : ∀ row ∈ rows, Table.isKey row.1.key ∧ row.1.key.asKey = row.1.key)
    (distinct : (rows.map (·.1.key)).Nodup) (present : ∀ row ∈ rows, row.2.isNil = false)
    (items : ∀ row ∈ rows, row.2.Rebuilds) : (Snapshot.table rows).Rebuilds := by
  intro s
  let id : TableId := ⟨s.tables.size⟩
  let ready : Machine := { s with tables := s.tables.push .empty }
  have sizes : ready.tables.size = s.tables.size + 1 := by simp [ready]
  have known : id.index < ready.tables.size := by simp [id, sizes]
  obtain ⟨pairs, t, run, gains, spread, content⟩ :=
    runOn_rebuildEntries known (fun row isRow => (keys row isRow).1) items
  rw [sizes] at spread
  have start : ready.tables[id.index]? = some .empty := by simp [ready, id]
  rw [start, Option.map_some] at content
  refine ⟨.table id, t, ?_, (Gains.newTable id s .empty).trans gains, .table content ?_ ?_ spread⟩
  · rw [rebuild, runOn_bind_ok (runOn_newTable .empty s)]
    change (rebuildEntries id rows >>= fun _ => pure (Value.table id)).runOn ready = _
    rw [runOn_bind_ok run]
    rfl
  · rw [Table.metatable_foldl_set]
    rfl
  · have final : ∀ pair ∈ pairs, pair.1.asKey = pair.1 := by
      rintro ⟨key, y⟩ isPair
      obtain ⟨k, item, -, -, rfl, isRow, -⟩ := spread.exists_row isPair
      exact (keys _ isRow).2
    have there : ∀ pair ∈ pairs, pair.2 ≠ .nil := by
      rintro ⟨key, y⟩ isPair
      obtain ⟨k, item, a, b, -, isRow, -, -, rebuilt⟩ := spread.exists_row isPair
      obtain ⟨z, way, stands⟩ := rebuilt.shown [] item (.here (present _ isRow))
      exact way_nil.1 way ▸ stands.ne_nil
    exact fun key y => Table.mem_live_foldl_set final (spread.keys ▸ distinct) there

/-- Every snapshot of a value becomes a value. -/
theorem Sound.rebuilds {snap : Snapshot} (sound : snap.Sound) : snap.Rebuilds := by
  induction sound with
  | bool b => exact .of_scalar (fun _ same => by cases same) rfl (by rw [rebuild]) fun _ => .bool b
  | int i => exact .of_scalar (fun _ same => by cases same) rfl (by rw [rebuild]) fun _ => .int i
  | float x =>
    exact .of_scalar (fun _ same => by cases same) rfl (by rw [rebuild]) fun _ => .float x
  | str text =>
    exact .of_scalar (fun _ same => by cases same) rfl (by rw [rebuild]) fun _ => .text text
  | function handle =>
    refine .of_leaf (fun _ same => by cases same) rfl fun s => ?_
    let placeholder : Function := .native (.placeholder handle.path)
    refine ⟨.function ⟨s.functions.size⟩, _, ?_, .newFunction _ s placeholder, .function ?_⟩
    · rw [rebuild]
      rfl
    · exact Array.getElem?_push_size
  | table keys distinct items rebuilds =>
    exact .table keys distinct (fun row isRow => (items row isRow).present) rebuilds

end Snapshot

end ScriptHost
