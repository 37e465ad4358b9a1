import Mathlib.Logic.Relation
import ScriptHost.Proofs.BridgedModules

/-!
# Tables that lie in their own keys

A snapshot leaves a table inside itself out, and the entry with it if the table is the value of the
entry.  If the table is the key of an entry that has a value, the entry stays, without a key.  No
machine takes such an entry: the snapshot becomes a table exactly if there is none.
-/

namespace ScriptHost

open MachineM

namespace Machine

/-- A value is a table and holds another value, as a key or under a key. -/
def Encloses (s : Machine) (v w : Value) : Prop := ∃ id, v = .table id ∧ s.Holds id w

/--
From a value on there are tables of the machine only, with keys that can be keys, and nothing that
has no copy.
-/
structure Portable (s : Machine) (v : Value) : Prop where
  known : ∀ id, Relation.ReflTransGen s.Encloses v (.table id) → id.index < s.tables.size
  keys : ∀ id, Relation.ReflTransGen s.Encloses v (.table id) →
    ∀ pair ∈ s.pairsOf id, Table.isKey pair.1
  native : ∀ x, Relation.ReflTransGen s.Encloses v x → ¬ x.IsForeign

theorem Portable.held {s : Machine} {id : TableId} {v : Value} (portable : s.Portable (.table id))
    (holds : s.Holds id v) : s.Portable v where
  known other leads := portable.known other (.head ⟨id, rfl, holds⟩ leads)
  keys other leads := portable.keys other (.head ⟨id, rfl, holds⟩ leads)
  native x leads := portable.native x (.head ⟨id, rfl, holds⟩ leads)

/-- A value is one of the given tables. -/
def Among (tables : List TableId) (v : Value) : Prop := ∃ id ∈ tables, v = .table id

/--
Inside given tables there is a table with itself or one around it as the key of a value that is
neither.  Whatever lies in the key of an entry counts only if the value is no table around it.
-/
inductive Knotted (s : Machine) : List TableId → Value → Prop where
  | here {passed : List TableId} {id : TableId} {k v : Value} (new : id ∉ passed)
      (isPair : (k, v) ∈ s.pairsOf id) (back : Among (id :: passed) k)
      (kept : ¬ Among (id :: passed) v) : Knotted s passed (.table id)
  | inKey {passed : List TableId} {id : TableId} {k v : Value} (new : id ∉ passed)
      (isPair : (k, v) ∈ s.pairsOf id) (kept : ¬ Among (id :: passed) v)
      (inner : Knotted s (id :: passed) k) : Knotted s passed (.table id)
  | inValue {passed : List TableId} {id : TableId} {k v : Value} (new : id ∉ passed)
      (isPair : (k, v) ∈ s.pairsOf id) (inner : Knotted s (id :: passed) v) :
      Knotted s passed (.table id)

variable {s : Machine} {passed : List TableId} {v : Value}

/-- A knot lies in a table that is new. -/
theorem Knotted.not_among (knotted : s.Knotted passed v) : ¬ Among passed v := by
  rintro ⟨id, inside, rfl⟩
  cases knotted with
  | here new => exact new inside
  | inKey new => exact new inside
  | inValue new => exact new inside

end Machine

namespace Snapshot

open Machine

/-- A table of a snapshot has a key of some kind. -/
inductive HasKey (kind : Snapshot → Prop) : Snapshot → Prop where
  | here {entries : List (Snapshot × Snapshot)} {k item : Snapshot} (isRow : (k, item) ∈ entries)
      (ofKind : kind k) : HasKey kind (.table entries)
  | inKey {entries : List (Snapshot × Snapshot)} {k item : Snapshot} (isRow : (k, item) ∈ entries)
      (inner : HasKey kind k) : HasKey kind (.table entries)
  | inValue {entries : List (Snapshot × Snapshot)} {k item : Snapshot}
      (isRow : (k, item) ∈ entries) (inner : HasKey kind item) : HasKey kind (.table entries)

/-- The key of an entry that has lost it. -/
def Missing (snap : Snapshot) : Prop := snap.isNil = true

/-- A number that no key can be. -/
def IsNaN : Snapshot → Prop
  | .float x => x.isNaN = true
  | _ => False

theorem not_hasKey_of_leaf {kind : Snapshot → Prop} {snap : Snapshot}
    (leaf : ∀ entries, snap ≠ .table entries) : ¬ snap.HasKey kind := by
  intro has
  cases has with
  | here => exact leaf _ rfl
  | inKey => exact leaf _ rfl
  | inValue => exact leaf _ rfl

/-! ## What a copy leaves out -/

/-- The rows of a snapshot and the pairs that they are copied from; those without a value go. -/
inductive Kept (good : Value → Snapshot → Prop) :
    List (Value × Value) → List (Snapshot × Snapshot) → Prop where
  | nil : Kept good [] []
  | drop {k v : Value} {name item : Snapshot} {pairs : List (Value × Value)}
      {rows : List (Snapshot × Snapshot)} (key : good k name) (value : good v item)
      (cut : item.isNil = true) (rest : Kept good pairs rows) : Kept good ((k, v) :: pairs) rows
  | keep {k v : Value} {name item : Snapshot} {pairs : List (Value × Value)}
      {rows : List (Snapshot × Snapshot)} (key : good k name) (value : good v item)
      (present : item.isNil = false) (rest : Kept good pairs rows) :
      Kept good ((k, v) :: pairs) ((name, item) :: rows)

section Kept

variable {good : Value → Snapshot → Prop} {refused : BridgeError → Prop}
  {pairs : List (Value × Value)} {rows : List (Snapshot × Snapshot)}

theorem Kept.of_row (kept : Kept good pairs rows) {name item : Snapshot}
    (isRow : (name, item) ∈ rows) :
    ∃ k v, (k, v) ∈ pairs ∧ good k name ∧ good v item ∧ item.isNil = false := by
  induction kept with
  | nil => cases isRow
  | drop _ _ _ _ ih =>
    obtain ⟨k, v, isPair, found⟩ := ih isRow
    exact ⟨k, v, List.mem_cons_of_mem _ isPair, found⟩
  | keep key value present _ ih =>
    rcases List.mem_cons.1 isRow with same | later
    · cases same
      exact ⟨_, _, List.mem_cons_self, key, value, present⟩
    · obtain ⟨k, v, isPair, found⟩ := ih later
      exact ⟨k, v, List.mem_cons_of_mem _ isPair, found⟩

theorem Kept.of_pair (kept : Kept good pairs rows) {k v : Value} (isPair : (k, v) ∈ pairs) :
    ∃ name item, good k name ∧ good v item ∧ (item.isNil = false → (name, item) ∈ rows) := by
  induction kept with
  | nil => cases isPair
  | drop key value cut _ ih =>
    rcases List.mem_cons.1 isPair with same | later
    · cases same
      refine ⟨_, _, key, value, fun present => ?_⟩
      rw [cut] at present
      cases present
    · exact ih later
  | keep key value _ _ ih =>
    rcases List.mem_cons.1 isPair with same | later
    · cases same
      exact ⟨_, _, key, value, fun _ => List.mem_cons_self⟩
    · obtain ⟨name, item, also, found, isRow⟩ := ih later
      exact ⟨name, item, also, found, fun present => List.mem_cons_of_mem _ (isRow present)⟩

/-- Pairs are copied one by one, keys and values alike. -/
theorem entries_kept {copy : String → Value → SnapshotM Snapshot} (path : String)
    (each : ∀ pair ∈ pairs, ∀ place, Ends (copy place pair.1) (good pair.1) refused ∧
      Ends (copy place pair.2) (good pair.2) refused) :
    Ends (entries copy path pairs) (Kept good pairs) refused := by
  induction pairs with
  | nil => exact .pure .nil
  | cons pair rest ih =>
    obtain ⟨k, v⟩ := pair
    obtain ⟨here, others⟩ := List.forall_mem_cons.1 each
    rw [entries]
    refine (here path).1.bind fun name key => ?_
    refine (here _).2.bind fun item value => (ih others).bind fun rows kept => ?_
    cases cut : item.isNil with
    | true => exact .pure (.drop key value cut kept)
    | false => exact .pure (.keep key value cut kept)

end Kept

variable {s : Machine} {passed : List TableId} {id : TableId} {v : Value}

/--
The copy of a value inside given tables: it is nil for these tables alone, and it has an entry
without a key exactly if there is a knot.
-/
structure Trims (s : Machine) (passed : List TableId) (v : Value) (snap : Snapshot) : Prop where
  cut : snap.isNil = true ↔ v = .nil ∨ Among passed v
  number : ∀ x, snap = .float x → v = .float x
  knots : snap.HasKey Missing ↔ s.Knotted passed v
  numbers : ¬ snap.HasKey IsNaN
  opened : ∀ id, v = .table id → id ∉ passed → ∃ rows, snap = .table rows

theorem Trims.of_leaf {snap : Snapshot} (noTable : ∀ id, v ≠ .table id)
    (leaf : ∀ entries, snap ≠ .table entries) (cut : snap.isNil = true ↔ v = .nil)
    (number : ∀ x, snap = .float x → v = .float x) : Trims s passed v snap where
  cut := by
    refine cut.trans (or_iff_left ?_).symm
    rintro ⟨id, -, same⟩
    exact noTable id same
  number := number
  knots := by
    refine iff_of_false (not_hasKey_of_leaf leaf) fun knotted => ?_
    cases knotted with
    | here => exact noTable _ rfl
    | inKey => exact noTable _ rfl
    | inValue => exact noTable _ rfl
  numbers := not_hasKey_of_leaf leaf
  opened id same := absurd same (noTable id)

theorem Trims.of_passed (isPassed : id ∈ passed) : Trims s passed (.table id) .nil where
  cut := iff_of_true rfl (.inr ⟨id, isPassed, rfl⟩)
  number _ same := by cases same
  knots := by
    refine iff_of_false (not_hasKey_of_leaf nofun) fun knotted => ?_
    exact knotted.not_among ⟨id, isPassed, rfl⟩
  numbers := not_hasKey_of_leaf nofun
  opened other same new := by
    cases same
    exact absurd isPassed new

/-- What is left of a value of a table is what is no table around it. -/
theorem Trims.present_iff {k : Value} {item : Snapshot} (trims : Trims s passed v item)
    (isPair : (k, v) ∈ s.pairsOf id) : item.isNil = false ↔ ¬ Among passed v := by
  have notNil : v ≠ .nil := (Table.mem_live.1 isPair).2.2
  rw [← Bool.not_eq_true, trims.cut, or_iff_right notNil]

theorem Trims.table {rows : List (Snapshot × Snapshot)} (new : id ∉ passed)
    (keys : ∀ pair ∈ s.pairsOf id, Table.isKey pair.1)
    (kept : Kept (Trims s (id :: passed)) (s.pairsOf id) rows) :
    Trims s passed (.table id) (.table rows) where
  cut := by
    refine iff_of_false nofun ?_
    rintro (same | ⟨other, inside, same⟩)
    · cases same
    · cases same
      exact new inside
  number _ same := by cases same
  knots := by
    constructor
    · intro has
      cases has with
      | here isRow lost =>
        obtain ⟨k, v, isPair, key, value, present⟩ := kept.of_row isRow
        rcases key.cut.1 lost with rfl | back
        · exact absurd (keys _ isPair) nofun
        · exact .here new isPair back ((value.present_iff isPair).1 present)
      | inKey isRow inner =>
        obtain ⟨k, v, isPair, key, value, present⟩ := kept.of_row isRow
        exact .inKey new isPair ((value.present_iff isPair).1 present) (key.knots.1 inner)
      | inValue isRow inner =>
        obtain ⟨k, v, isPair, -, value, -⟩ := kept.of_row isRow
        exact .inValue new isPair (value.knots.1 inner)
    · intro knotted
      cases knotted with
      | here _ isPair back stays =>
        obtain ⟨name, item, key, value, isRow⟩ := kept.of_pair isPair
        exact .here (isRow ((value.present_iff isPair).2 stays)) (key.cut.2 (.inr back))
      | inKey _ isPair stays inner =>
        obtain ⟨name, item, key, value, isRow⟩ := kept.of_pair isPair
        exact .inKey (isRow ((value.present_iff isPair).2 stays)) (key.knots.2 inner)
      | inValue _ isPair inner =>
        obtain ⟨name, item, -, value, isRow⟩ := kept.of_pair isPair
        exact .inValue (isRow ((value.present_iff isPair).2 inner.not_among)) (value.knots.2 inner)
  numbers := by
    intro has
    cases has with
    | @here _ name item isRow isNaN =>
      obtain ⟨k, v, isPair, key, -, -⟩ := kept.of_row isRow
      cases name with
      | float x =>
        have isKey := keys _ isPair
        rw [key.number x rfl, Table.isKey, show x.isNaN = true from isNaN] at isKey
        cases isKey
      | _ => exact isNaN
    | inKey isRow inner =>
      obtain ⟨k, v, -, key, -, -⟩ := kept.of_row isRow
      exact key.numbers inner
    | inValue isRow inner =>
      obtain ⟨k, v, -, -, value, -⟩ := kept.of_row isRow
      exact value.numbers inner
  opened _ _ _ := ⟨rows, rfl⟩

/-- What is no table is copied by itself. -/
theorem take_leaf_trims (depth : Nat) (path : String) (native : ¬ v.IsForeign)
    (noTable : ∀ id, v ≠ .table id) :
    Ends (take s depth passed path v) (Trims s passed v) fun _ => False := by
  cases v with
  | nil =>
    rw [take]
    exact .pure (.of_leaf noTable (by simp) (by simp [isNil]) (by simp))
  | bool b =>
    rw [take]
    exact .pure (.of_leaf noTable (by simp) (by simp [isNil]) (by simp))
  | int i =>
    rw [take]
    exact .pure (.of_leaf noTable (by simp) (by simp [isNil]) (by simp))
  | float x =>
    rw [take]
    cases x.toInt64? with
    | some i => exact .pure (.of_leaf noTable (by simp) (by simp [isNil]) (by simp))
    | none =>
      refine .pure (.of_leaf noTable (by simp) (by simp [isNil]) fun y same => ?_)
      rw [Snapshot.float.inj same]
  | str bytes =>
    rw [take]
    exact .pure (.of_leaf noTable (by simp) (by simp [isNil]) (by simp))
  | table id => exact absurd rfl (noTable id)
  | function f =>
    rw [take]
    intro functions
    exact .inl ⟨_, functions ++ [.function f], rfl,
      .of_leaf noTable (by simp) (by simp [isNil]) (by simp)⟩
  | _ => exact absurd trivial native

/-- A copy goes no further at what is no table, or a table around it. -/
theorem take_closed_trims (depth : Nat) (path : String) (native : ¬ v.IsForeign)
    (closed : ∀ id, v = .table id → id ∈ passed) :
    Ends (take s depth passed path v) (Trims s passed v) fun _ => False := by
  by_cases isTable : ∃ id, v = .table id
  · obtain ⟨id, rfl⟩ := isTable
    have isPassed := closed id rfl
    have cut : take s depth passed path (.table id) = pure .nil := by
      cases depth with
      | zero => rw [take, if_pos isPassed]
      | succ => rw [take, if_pos isPassed]
    rw [cut]
    exact .pure (.of_passed isPassed)
  · exact take_leaf_trims depth path native fun id same => isTable ⟨id, same⟩

/--
A copy of something that is nowhere foreign is made, with entries without a key exactly for the
knots.  The tables passed so far are distinct, so the depth does not run out before the tables of
the machine do.
-/
theorem take_trims (depth : Nat) (path : String) (portable : s.Portable v)
    (distinct : passed.Nodup) (known : ∀ id ∈ passed, id.index < s.tables.size)
    (deep : s.tables.size ≤ depth + passed.length) :
    Ends (take s depth passed path v) (Trims s passed v) fun _ => False := by
  induction depth generalizing v passed path with
  | zero =>
    refine take_closed_trims 0 path (portable.native v .refl) ?_
    rintro id rfl
    by_contra new
    -- there would be more tables than the machine has
    have short := length_le_of_nodup (List.nodup_cons.2 ⟨new, distinct⟩)
      (List.forall_mem_cons.2 ⟨portable.known id .refl, known⟩)
    rw [List.length_cons] at short
    omega
  | succ depth ih =>
    by_cases opened : ∃ id, v = .table id ∧ id ∉ passed
    swap
    · refine take_closed_trims (depth + 1) path (portable.native v .refl) fun id same => ?_
      by_contra new
      exact opened ⟨id, same, new⟩
    obtain ⟨id, rfl, new⟩ := opened
    have inner (place : String) {w : Value} (holds : s.Holds id w) :
        Ends (take s depth (id :: passed) place w) (Trims s (id :: passed) w) fun _ => False := by
      refine ih place (portable.held holds) (List.nodup_cons.2 ⟨new, distinct⟩)
        (List.forall_mem_cons.2 ⟨portable.known id .refl, known⟩) ?_
      rw [List.length_cons]
      omega
    rw [take, if_neg new]
    refine (entries_kept path fun pair isPair place => ?_).bind fun rows kept =>
      .pure (.table new (portable.keys id .refl) kept)
    exact ⟨inner place ⟨pair, isPair, .inl rfl⟩, inner place ⟨pair, isPair, .inr rfl⟩⟩

/-! ## What becomes of it -/

/-- What a machine says about an entry without a key. -/
def keyless : BridgeError := .script (.runtime "table index is nil")

/-- A snapshot becomes a value, or it has an entry without a key. -/
def Arrives (snap : Snapshot) : Prop :=
  ∀ s : Machine,
    (¬ snap.HasKey Missing ∧ ∃ v t, (rebuild snap).runOn s = (.ok v, t) ∧
      (¬ snap.Missing → ¬ snap.IsNaN → Table.isKey v)) ∨
    snap.HasKey Missing ∧ ∃ t, (rebuild snap).runOn s = (.error (.error keyless), t)

/-- Rows become entries of a table, or one of them has no key. -/
def EachArrives (rows : List (Snapshot × Snapshot)) : Prop :=
  ∀ (id : TableId) (s : Machine),
    (¬ HasKey Missing (.table rows) ∧ ∃ t, (rebuildEntries id rows).runOn s = (.ok (), t)) ∨
    HasKey Missing (.table rows) ∧
      ∃ t, (rebuildEntries id rows).runOn s = (.error (.error keyless), t)

theorem HasKey.cons {kind : Snapshot → Prop} {row : Snapshot × Snapshot}
    {rows : List (Snapshot × Snapshot)} :
    HasKey kind (.table (row :: rows)) ↔
      kind row.1 ∨ row.1.HasKey kind ∨ row.2.HasKey kind ∨ HasKey kind (.table rows) := by
  constructor
  · intro has
    cases has with
    | here isRow ofKind =>
      rcases List.mem_cons.1 isRow with rfl | later
      · exact .inl ofKind
      · exact .inr (.inr (.inr (.here later ofKind)))
    | inKey isRow inner =>
      rcases List.mem_cons.1 isRow with rfl | later
      · exact .inr (.inl inner)
      · exact .inr (.inr (.inr (.inKey later inner)))
    | inValue isRow inner =>
      rcases List.mem_cons.1 isRow with rfl | later
      · exact .inr (.inr (.inl inner))
      · exact .inr (.inr (.inr (.inValue later inner)))
  · rintro (ofKind | inner | inner | later)
    · exact .here List.mem_cons_self ofKind
    · exact .inKey List.mem_cons_self inner
    · exact .inValue List.mem_cons_self inner
    · cases later with
      | here isRow ofKind => exact .here (List.mem_cons_of_mem _ isRow) ofKind
      | inKey isRow inner => exact .inKey (List.mem_cons_of_mem _ isRow) inner
      | inValue isRow inner => exact .inValue (List.mem_cons_of_mem _ isRow) inner

theorem arrives_leaf {snap : Snapshot} (leaf : ∀ entries, snap ≠ .table entries)
    (run : ∀ s, ∃ v t, (rebuild snap).runOn s = (.ok v, t) ∧
      (¬ snap.Missing → ¬ snap.IsNaN → Table.isKey v)) : Arrives snap :=
  fun s => .inl ⟨not_hasKey_of_leaf leaf, run s⟩

theorem arrives_table {rows : List (Snapshot × Snapshot)} (each : EachArrives rows) :
    Arrives (.table rows) := by
  intro s
  obtain ⟨none, t, run⟩ | ⟨has, t, run⟩ :=
    each ⟨s.tables.size⟩ { s with tables := s.tables.push .empty }
  · refine .inl ⟨none, .table ⟨s.tables.size⟩, t, ?_, fun _ _ => rfl⟩
    rw [rebuild, runOn_bind_ok (runOn_newTable _ s), runOn_bind_ok run]
    rfl
  · refine .inr ⟨has, t, ?_⟩
    rw [rebuild, runOn_bind_ok (runOn_newTable _ s), runOn_bind_stop run]

theorem eachArrives_nil : EachArrives [] := by
  refine fun id s => .inl ⟨fun has => ?_, s, rfl⟩
  cases has with
  | here isRow => cases isRow
  | inKey isRow => cases isRow
  | inValue isRow => cases isRow

theorem eachArrives_cons {k item : Snapshot} {rows : List (Snapshot × Snapshot)}
    (number : ¬ k.IsNaN) (key : Arrives k) (value : Arrives item) (others : EachArrives rows) :
    EachArrives ((k, item) :: rows) := by
  intro id s
  rw [HasKey.cons, rebuildEntries]
  obtain ⟨keyFree, kv, t, runKey, isKey⟩ | ⟨has, t, runKey⟩ := key s
  swap
  · exact .inr ⟨.inr (.inl has), t, runOn_bind_stop runKey _⟩
  rw [runOn_bind_ok runKey]
  obtain ⟨itemFree, v, u, runItem, -⟩ | ⟨has, u, runItem⟩ := value t
  swap
  · exact .inr ⟨.inr (.inr (.inl has)), u, runOn_bind_stop runItem _⟩
  rw [runOn_bind_ok runItem]
  by_cases missing : k.Missing
  · cases k with
    | nil =>
      cases runKey
      exact .inr ⟨.inl rfl, u, rfl⟩
    | _ => cases missing
  · rw [if_pos (isKey missing number)]
    obtain ⟨restFree, w, runRest⟩ | ⟨has, w, runRest⟩ :=
      others id { u with tables := u.tables.modify id.index (·.set kv v) }
    · refine .inl ⟨?_, w, ?_⟩
      · rintro (bad | bad | bad | bad)
        · exact missing bad
        · exact keyFree bad
        · exact itemFree bad
        · exact restFree bad
      · rw [runOn_bind_ok (runOn_rawSet id kv v u)]
        exact runRest
    · refine .inr ⟨.inr (.inr (.inr has)), w, ?_⟩
      rw [runOn_bind_ok (runOn_rawSet id kv v u)]
      exact runRest

mutual

theorem arrives : ∀ snap : Snapshot, ¬ snap.HasKey IsNaN → Arrives snap
  | .nil, _ => arrives_leaf nofun fun s => ⟨.nil, s, rfl, fun present => absurd rfl present⟩
  | .bool b, _ => arrives_leaf nofun fun s => ⟨.bool b, s, rfl, fun _ _ => rfl⟩
  | .int i, _ => arrives_leaf nofun fun s => ⟨.int i, s, rfl, fun _ _ => rfl⟩
  | .float x, _ => arrives_leaf nofun fun s => ⟨.float x, s, rfl, fun _ number => by
      rw [Table.isKey, Bool.eq_false_iff.2 number]
      rfl⟩
  | .str text, _ => arrives_leaf nofun fun s => ⟨.text text, s, rfl, fun _ _ => rfl⟩
  | .function handle, _ => arrives_leaf nofun fun s => ⟨_, _, rfl, fun _ _ => rfl⟩
  | .table rows, numbers => arrives_table (eachArrives rows numbers)

theorem eachArrives : ∀ rows : List (Snapshot × Snapshot), ¬ HasKey IsNaN (.table rows) →
    EachArrives rows
  | [], _ => eachArrives_nil
  | (k, item) :: rows, numbers => by
    rw [HasKey.cons, not_or, not_or, not_or] at numbers
    obtain ⟨number, inKey, inItem, later⟩ := numbers
    exact eachArrives_cons number (arrives k inKey) (arrives item inItem) (eachArrives rows later)

end

/-- A table becomes a table. -/
theorem rebuild_table_ok {rows : List (Snapshot × Snapshot)} {s t : Machine} {v : Value}
    (run : (rebuild (.table rows)).runOn s = (.ok v, t)) : ∃ copy, v = .table copy := by
  rw [rebuild, runOn_bind_ok (runOn_newTable _ s)] at run
  obtain ⟨_, _, -, done⟩ := runOn_bind_eq_ok.1 run
  cases done
  exact ⟨_, rfl⟩

end Snapshot

namespace Guest

open Machine

/--
A module whose table leads to nothing foreign has a snapshot, in which some entry has no key exactly
if the table has a knot.  Without a knot the snapshot becomes a table in any machine; with one no
machine takes it.
-/
theorem snapshot_knots (call : Caller) {guest now : Guest} {module : String} {root : TableId}
    (required : guest.within (moduleValue call module) = (.ok (.table root), now))
    (portable : now.machine.Portable (.table root)) :
    ∃ snap functions, guest.snapshot call module = (.ok snap, { now with functions }) ∧
      (snap.HasKey Snapshot.Missing ↔ now.machine.Knotted [] (.table root)) ∧
      (¬ now.machine.Knotted [] (.table root) →
        ∀ s, ∃ copy t, (Snapshot.rebuild snap).runOn s = (.ok (.table copy), t)) ∧
      (now.machine.Knotted [] (.table root) →
        ∀ s, ∃ t, (Snapshot.rebuild snap).runOn s = (.error (.error Snapshot.keyless), t)) ∧
      ∀ settings s, guest = fresh settings s.files s.environment →
        (copyOf call settings module).runOn s = (Snapshot.rebuild snap).runOn s := by
  have ends := Snapshot.take_trims now.machine.tables.size module portable List.nodup_nil
    (fun _ inside => absurd inside List.not_mem_nil) (Nat.le_add_right _ _) now.functions
  obtain ⟨snap, functions, run, trims⟩ | ⟨_, _, _, never⟩ := ends
  swap
  · exact absurd never id
  have taken := snapshot_eq required run
  obtain ⟨rows, rfl⟩ := trims.opened root rfl List.not_mem_nil
  refine ⟨.table rows, functions, taken, trims.knots, fun free s => ?_, fun knotted s => ?_, ?_⟩
  · obtain ⟨-, v, t, arrived, -⟩ | ⟨has, -⟩ := Snapshot.arrives (.table rows) trims.numbers s
    · obtain ⟨copy, rfl⟩ := Snapshot.rebuild_table_ok arrived
      exact ⟨copy, t, arrived⟩
    · exact absurd (trims.knots.1 has) free
  · obtain ⟨none, -⟩ | ⟨-, refused⟩ := Snapshot.arrives (.table rows) trims.numbers s
    · exact absurd (trims.knots.2 knotted) none
    · exact refused
  · rintro settings s rfl
    rw [copyOf, runOn_bind_ok (runOn_get s), taken]

/-! ## A module that is its own key -/

/-- A guest that has a module in its cache which holds a value under itself. -/
def selfKeyed (v : Value) : Machine where
  tables := #[tableOf [(.text "require", .function ⟨0⟩)], tableOf [(.text "m", .table ⟨2⟩)],
    tableOf [(.table ⟨2⟩, v)]]
  functions := #[.native (.standard .require)]
  globals := ⟨0⟩
  loaded := ⟨1⟩

/-- The guest after the module was required. -/
def requiredSelf (v : Value) : Machine := ((selfKeyed v).searched ⟨0⟩ "require").searched ⟨1⟩ "m"

theorem within_selfKeyed (v : Value) :
    (⟨selfKeyed v, []⟩ : Guest).within (moduleValue call "m") =
      (.ok (.table ⟨2⟩), ⟨requiredSelf v, []⟩) := by
  refine within_moduleValue [] (get_single _ _) rfl (get_single _ _) ?_ ?_
  · exact show 0 + 1 < ScriptM.nestingLimit by decide
  · exact show 0 + 22 ≤ ScriptM.stackLimit by decide

section SelfKeyed

variable {v : Value}

theorem pairsOf_requiredSelf (present : v ≠ .nil) :
    (requiredSelf v).pairsOf ⟨2⟩ = [(.table ⟨2⟩, v)] := by
  rw [requiredSelf, pairsOf_searched, pairsOf_searched]
  refine Table.live_of_single (.table ⟨2⟩) present fun other => ?_
  change (tableOf [(.table ⟨2⟩, v)]).get other = _
  rw [tableOf, List.foldl_cons, List.foldl_nil, Table.get_set, Table.get_empty]

theorem portable_requiredSelf (present : v ≠ .nil) (native : ¬ v.IsForeign)
    (noOther : ∀ id, v = .table id → id = ⟨2⟩) : (requiredSelf v).Portable (.table ⟨2⟩) := by
  have pairs := pairsOf_requiredSelf present
  have leads {x : Value} (way : Relation.ReflTransGen (requiredSelf v).Encloses (.table ⟨2⟩) x) :
      x = .table ⟨2⟩ ∨ x = v := by
    induction way with
    | refl => exact .inl rfl
    | tail _ step ih =>
      obtain ⟨id, same, pair, isPair, held⟩ := step
      have two : id = ⟨2⟩ := by
        rcases ih with back | back
        · rw [same] at back
          exact Value.table.inj back
        · exact noOther id (back.symm.trans same)
      rw [two, pairs, List.mem_singleton] at isPair
      subst isPair
      exact held
  have two {id : TableId}
      (way : Relation.ReflTransGen (requiredSelf v).Encloses (.table ⟨2⟩) (.table id)) :
      id = ⟨2⟩ := by
    rcases leads way with same | same
    · exact Value.table.inj same
    · exact noOther id same.symm
  refine ⟨fun id way => ?_, fun id way pair isPair => ?_, fun x way => ?_⟩
  · have size : (requiredSelf v).tables.size = 3 := by
      rw [requiredSelf, size_tables_searched, size_tables_searched]
      rfl
    rw [two way, size]
    decide
  · rw [two way, pairs, List.mem_singleton] at isPair
    rw [isPair]
    rfl
  · rcases leads way with rfl | rfl
    · exact id
    · exact native

end SelfKeyed

/--
A table that holds a number under itself cannot be bridged; a table that holds itself under itself
can.
-/
theorem snapshot_knots_selfKeyed :
    (∃ snap functions,
      snapshot call ⟨selfKeyed (.int 1), []⟩ "m" = (.ok snap, ⟨requiredSelf (.int 1), functions⟩) ∧
      snap.HasKey Snapshot.Missing ∧
      ∃ t, (Snapshot.rebuild snap).runOn {} = (.error (.error Snapshot.keyless), t)) ∧
    ∃ snap functions,
      snapshot call ⟨selfKeyed (.table ⟨2⟩), []⟩ "m" =
        (.ok snap, ⟨requiredSelf (.table ⟨2⟩), functions⟩) ∧
      ∃ copy t, (Snapshot.rebuild snap).runOn {} = (.ok (.table copy), t) := by
  constructor
  · obtain ⟨snap, functions, taken, lost, -, refused, -⟩ :=
      snapshot_knots call (within_selfKeyed (.int 1))
        (portable_requiredSelf (v := .int 1) nofun id nofun)
    have isPair : (.table ⟨2⟩, .int 1) ∈ (requiredSelf (.int 1)).pairsOf ⟨2⟩ := by
      rw [pairsOf_requiredSelf (v := .int 1) nofun]
      exact List.mem_cons_self
    have knotted : (requiredSelf (.int 1)).Knotted [] (.table ⟨2⟩) := by
      refine .here List.not_mem_nil isPair ⟨⟨2⟩, List.mem_cons_self, rfl⟩ ?_
      rintro ⟨_, -, same⟩
      cases same
    exact ⟨snap, functions, taken, lost.2 knotted, refused knotted {}⟩
  · obtain ⟨snap, functions, taken, -, arrives, -⟩ :=
      snapshot_knots call (within_selfKeyed (.table ⟨2⟩))
        (portable_requiredSelf (v := .table ⟨2⟩) nofun id
          fun id same => (Value.table.inj same).symm)
    refine ⟨snap, functions, taken, arrives (fun knotted => ?_) {}⟩
    have inside {k v : Value} (isPair : (k, v) ∈ (requiredSelf (.table ⟨2⟩)).pairsOf ⟨2⟩) :
        Among [⟨2⟩] k ∧ Among [⟨2⟩] v := by
      rw [pairsOf_requiredSelf (v := .table ⟨2⟩) nofun, List.mem_singleton] at isPair
      cases isPair
      exact ⟨⟨⟨2⟩, List.mem_cons_self, rfl⟩, ⟨⟨2⟩, List.mem_cons_self, rfl⟩⟩
    cases knotted with
    | here _ isPair _ kept => exact kept (inside isPair).2
    | inKey _ isPair kept => exact kept (inside isPair).2
    | inValue _ isPair inner => exact inner.not_among (inside isPair).2

end Guest

end ScriptHost
