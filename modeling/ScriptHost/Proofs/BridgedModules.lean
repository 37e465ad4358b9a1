import ScriptHost.Proofs.CachedModules
import ScriptHost.Proofs.IntegralNumbers
import ScriptHost.Proofs.Placeholders
import ScriptHost.Proofs.Rebuilding

/-!
# Modules that are bridged

The table of a module is copied out of a guest by way of a snapshot.  Where a way leads through
distinct tables, the copy has what the module has, and it has nothing else.  If something in the
module has no copy, nothing is copied.
-/

namespace ScriptHost

open MachineM

theorem Value.text_inj {a b : String} : text a = text b ↔ a = b := by
  simp [text, String.toByteArray_inj]

namespace Machine

/--
A value of a guest and its copy in another machine.  Numbers that equal an integer are integers; a
function has become one that always raises an error.
-/
inductive Copies (t : Machine) : Value → Value → Prop where
  | bool (b : Bool) : Copies t (.bool b) (.bool b)
  | text (s : String) : Copies t (.text s) (.text s)
  | int (i : Int64) : Copies t (.int i) (.int i)
  | integral {x : Binary64} {i : Int64} (equal : (Value.float x).rawEquals (.int i) = true) :
      Copies t (.float x) (.int i)
  | float {x : Binary64}
      (fractional : ∀ i : Int64, (Value.float x).rawEquals (.int i) = false) :
      Copies t (.float x) (.float x)
  | table (id copy : TableId) : Copies t (.table id) (.table copy)
  | function (id : FunctionId) {copy : FunctionId}
      (fails : ∀ u : Machine, u.functions[copy.index]? = t.functions[copy.index]? →
        ∀ depth site args, Fails (Calls.callAt depth site (.function copy) args) u) :
      Copies t (.function id) (.function copy)

/--
A table that another machine got as the copy of a table: simple ways lead to copies of what they led
to, and all ways in the copy are such ways.  The tables of the copy are new, have no metatables, and
each one lies on one way.
-/
structure CopyOf (g : Machine) (root : TableId) (s t : Machine) (copy : TableId) : Prop where
  every : ∀ keys x, g.SimpleWay [] (.table root) keys x →
    ∃ y, t.Way (.table copy) keys y ∧ t.Copies x y
  only : ∀ keys y, t.Way (.table copy) keys y →
    ∃ x, g.SimpleWay [] (.table root) keys x ∧ t.Copies x y
  fresh : ∀ keys id, t.Way (.table copy) keys (.table id) → s.tables.size ≤ id.index ∧
    ∃ table, t.tables[id.index]? = some table ∧ table.metatable = none
  apart : ∀ keys keys' id, t.Way (.table copy) keys (.table id) →
    t.Way (.table copy) keys' (.table id) → keys = keys'
  gains : Gains ⟨s.tables.size⟩ s t

variable {g s t : Machine} {x y : Value} {part snap : Snapshot} {root copy : TableId}

/-- What stands for a part of a snapshot is a copy of what the part shows. -/
theorem Stands.copies (stands : t.Stands part y) (shown : x.Shown part) : t.Copies x y := by
  cases shown with
  | bool b =>
    cases stands
    exact .bool b
  | int i =>
    cases stands
    exact .int i
  | @integral x i equal =>
    cases stands
    refine .integral ?_
    rw [Value.rawEquals, Binary64.compareInt?_eq_iff.2 equal]
    rfl
  | @float x fractional =>
    cases stands
    refine .float fun i => ?_
    rw [Value.rawEquals, beq_eq_false_iff_ne]
    intro same
    rw [Binary64.compareInt?_eq_iff.1 same] at fractional
    cases fractional
  | text s =>
    cases stands
    exact .text s
  | table id entries =>
    cases stands
    exact .table id _
  | function id handle =>
    cases stands with
    | function found =>
      refine .function id fun u same depth site args => ?_
      exact Calls.callAt_placeholder_fails (same.trans found) depth site args

/-- What becomes of a snapshot of a table is a copy of the table. -/
theorem Rebuilt.copyOf {high : Nat} (captures : Snapshot.Captures g [] (.table root) snap)
    (rebuilt : t.Rebuilt s.tables.size high snap (.table copy))
    (gains : Gains ⟨s.tables.size⟩ s t) : g.CopyOf root s t copy where
  every keys x simple := by
    obtain ⟨part, isPart, shown⟩ := captures.shown keys x simple
    obtain ⟨y, way, stands⟩ := rebuilt.shown keys part isPart
    exact ⟨y, way, stands.copies shown⟩
  only keys y way := by
    obtain ⟨part, isPart, stands⟩ := rebuilt.only keys y way
    obtain ⟨x, simple, shown⟩ := captures.only keys part isPart
    exact ⟨x, simple, stands.copies shown⟩
  fresh keys id way := by
    obtain ⟨above, -, plain⟩ := rebuilt.fresh keys id way
    exact ⟨above, plain⟩
  apart := rebuilt.apart
  gains := gains

end Machine

namespace Snapshot

open Machine

/-- A snapshot of a table becomes a copy of the table. -/
theorem Captures.rebuild {g : Machine} {root : TableId} {snap : Snapshot}
    (captures : Captures g [] (.table root) snap) (s : Machine) :
    ∃ copy t, (rebuild snap).runOn s = (.ok (.table copy), t) ∧ g.CopyOf root s t copy := by
  obtain ⟨part, isPart, shown⟩ :=
    captures.shown [] (.table root) (.here fun _ _ => List.not_mem_nil)
  obtain ⟨v, t, run, gains, rebuilt⟩ := (captures.sound isPart.present).rebuilds s
  obtain ⟨y, way, stands⟩ := rebuilt.shown [] part isPart
  obtain rfl := way_nil.1 way
  cases shown
  cases stands with
  | table rows copy => exact ⟨copy, t, run, rebuilt.copyOf captures gains⟩

end Snapshot

namespace Guest

open Machine

/-- What is taken of the table of a module is the snapshot of the module. -/
theorem snapshot_eq {call : Caller} {guest now : Guest} {module : String} {v : Value}
    {result : Except (Stop BridgeError) Snapshot} {functions : List Value}
    (required : guest.within (moduleValue call module) = (.ok v, now))
    (run : (Snapshot.take now.machine now.machine.tables.size [] module v).run.run now.functions =
      (result, functions)) :
    guest.snapshot call module = (result, { now with functions }) := by
  rw [snapshot, required]
  dsimp only
  rw [run]

/--
The table of a module is copied out of a guest as a whole or not at all.  If no way leads to a thing
that has no copy, there is a snapshot, and it becomes a copy of the table in any machine.  Otherwise
there is none; the error is that of such a thing, and a machine that wants the copy stays as it is.
-/
theorem snapshot_faithful (call : Caller) {guest now : Guest} {module : String} {root : TableId}
    (required : guest.within (moduleValue call module) = (.ok (.table root), now))
    (native : now.machine.Native (.table root)) :
    ((∀ keys x, now.machine.Way (.table root) keys x → ¬ x.IsForeign) →
      ∃ snap functions, guest.snapshot call module = (.ok snap, { now with functions }) ∧
        (∀ s, ∃ copy t, (Snapshot.rebuild snap).runOn s = (.ok (.table copy), t) ∧
          now.machine.CopyOf root s t copy) ∧
        ∀ settings s, guest = fresh settings s.files s.environment →
          (copyOf call settings module).runOn s = (Snapshot.rebuild snap).runOn s) ∧
    ((∃ keys x, now.machine.Way (.table root) keys x ∧ x.IsForeign) →
      ∃ e functions, guest.snapshot call module = (.error (.error e), { now with functions }) ∧
        (∃ keys x, now.machine.Way (.table root) keys x ∧ x.Refused e) ∧
        ∀ settings s, guest = fresh settings s.files s.environment →
          (copyOf call settings module).runOn s = (.error (.error e), s)) := by
  have ends := Snapshot.take_ends now.machine.tables.size module native rfl List.nodup_nil
    (fun _ inside => absurd inside List.not_mem_nil) (Nat.le_add_right _ _) now.functions
  rcases ends with ⟨snap, functions, run, captures⟩ | ⟨e, functions, run, keys, x, simple, refused⟩
  · have taken := snapshot_eq required run
    constructor
    · refine fun _ => ⟨snap, functions, taken, captures.rebuild, ?_⟩
      rintro settings s rfl
      rw [copyOf, runOn_bind_ok (runOn_get s), taken]
    · rintro ⟨keys, x, way, foreign⟩
      obtain ⟨keys', simple⟩ := way.simple
      obtain ⟨part, -, shown⟩ := captures.shown keys' x simple
      exact absurd foreign shown.not_foreign
  · have taken := snapshot_eq required run
    refine ⟨fun none => absurd refused.isForeign (none keys x simple.way), fun _ => ?_⟩
    refine ⟨e, functions, taken, ⟨keys, x, simple.way, refused⟩, ?_⟩
    rintro settings s rfl
    rw [copyOf, runOn_bind_ok (runOn_get s), taken]
    rfl

/-! ## A module whose parts are one table -/

/-- The two parts of the module are one table. -/
def wholePairs : List (Value × Value) :=
  [(.text "left", .table ⟨3⟩), (.text "right", .table ⟨3⟩), (.text "run", .function ⟨1⟩)]

/-- The table leads back to the module and holds one value more. -/
def partPairs (v : Value) : List (Value × Value) := [(.text "up", .table ⟨2⟩), (.text "ratio", v)]

def tableOf (pairs : List (Value × Value)) : Table :=
  pairs.foldl (fun t pair => t.set pair.1 pair.2) .empty

theorem get_single (key : String) (x : Value) : (tableOf [(.text key, x)]).get (.text key) = x := by
  simp [tableOf, Table.get_set]

/-- A guest that has the module in its cache. -/
def entangled (v : Value) : Machine where
  tables := #[tableOf [(.text "require", .function ⟨0⟩)], tableOf [(.text "m", .table ⟨2⟩)],
    tableOf wholePairs, tableOf (partPairs v)]
  functions := #[.native (.standard .require), .native (.standard .type)]
  globals := ⟨0⟩
  loaded := ⟨1⟩

/-- The guest after the module was required, which takes two lookups. -/
def required (v : Value) : Machine := ((entangled v).searched ⟨0⟩ "require").searched ⟨1⟩ "m"

theorem within_entangled (v : Value) :
    (⟨entangled v, []⟩ : Guest).within (moduleValue call "m") =
      (.ok (.table ⟨2⟩), ⟨required v, []⟩) := by
  refine within_moduleValue [] (get_single _ _) rfl (get_single _ _) ?_ ?_
  · exact show 0 + 1 < ScriptM.nestingLimit by decide
  · exact show 0 + 22 ≤ ScriptM.stackLimit by decide

theorem pairsOf_required (v : Value) (id : TableId) :
    (required v).pairsOf id = (entangled v).pairsOf id := by
  rw [required, pairsOf_searched, pairsOf_searched]

theorem pairsOf_whole {v key x : Value} :
    (key, x) ∈ (required v).pairsOf ⟨2⟩ ↔ (key, x) ∈ wholePairs := by
  rw [pairsOf_required]
  refine Table.mem_live_foldl_set ?_ ?_ ?_
  · simp [wholePairs, Value.text, Value.asKey]
  · simp [wholePairs, Value.text_inj]
  · simp [wholePairs]

theorem pairsOf_part {v key x : Value} (present : v ≠ .nil) :
    (key, x) ∈ (required v).pairsOf ⟨3⟩ ↔ (key, x) ∈ partPairs v := by
  rw [pairsOf_required]
  refine Table.mem_live_foldl_set ?_ ?_ ?_
  · simp [partPairs, Value.text, Value.asKey]
  · simp [partPairs, Value.text_inj]
  · simp [partPairs, present]

section Entangled

variable {v : Value}

theorem simple_part {name : String} (isPair : (.text name, .table ⟨3⟩) ∈ wholePairs) :
    (required v).SimpleWay [] (.table ⟨2⟩) [.text name] (.table ⟨3⟩) := by
  refine .inside List.not_mem_nil (pairsOf_whole.2 isPair) (.here ?_)
  rintro id ⟨⟩
  decide

variable (present : v ≠ .nil)

include present

/-- The way back is no simple way. -/
theorem not_simple_up {x : Value} :
    ¬ (required v).SimpleWay [] (.table ⟨2⟩) [.text "left", .text "up"] x := by
  intro simple
  cases simple with
  | inside _ isPair onward =>
    have held := pairsOf_whole.1 isPair
    simp only [wholePairs, List.mem_cons, List.not_mem_nil, Prod.mk.injEq, Value.text_inj,
      or_false] at held
    rcases held with ⟨-, rfl⟩ | ⟨wrong, -⟩ | ⟨wrong, -⟩
    · cases onward with
      | inside _ isPair onward =>
        have held := (pairsOf_part present).1 isPair
        simp only [partPairs, List.mem_cons, List.not_mem_nil, Prod.mk.injEq, Value.text_inj,
          or_false] at held
        rcases held with ⟨-, rfl⟩ | ⟨wrong, -⟩
        · cases onward with
          | here apart => exact absurd (.tail _ List.mem_cons_self) (apart ⟨2⟩ rfl)
        · exact absurd wrong (by decide)
    · exact absurd wrong (by decide)
    · exact absurd wrong (by decide)

/-- Each key of the module is a text, and leads to a part of it. -/
theorem required_pairs {id : TableId} {key x : Value} (among : id = ⟨2⟩ ∨ id = ⟨3⟩)
    (isPair : (key, x) ∈ (required v).pairsOf id) :
    (∃ s, key = .text s) ∧ x ∈ [.table ⟨2⟩, .table ⟨3⟩, .function ⟨1⟩, v] := by
  rcases among with rfl | rfl
  · have held := pairsOf_whole.1 isPair
    simp only [wholePairs, List.mem_cons, List.not_mem_nil, Prod.mk.injEq, or_false] at held
    rcases held with ⟨rfl, rfl⟩ | ⟨rfl, rfl⟩ | ⟨rfl, rfl⟩ <;> exact ⟨⟨_, rfl⟩, by simp⟩
  · have held := (pairsOf_part present).1 isPair
    simp only [partPairs, List.mem_cons, List.not_mem_nil, Prod.mk.injEq, or_false] at held
    rcases held with ⟨rfl, rfl⟩ | ⟨rfl, rfl⟩ <;> exact ⟨⟨_, rfl⟩, by simp⟩

variable (noTable : ∀ id, v ≠ .table id)

include noTable

theorem required_ways {w x : Value} {keys : List Value} (way : (required v).Way w keys x)
    (start : w ∈ [.table ⟨2⟩, .table ⟨3⟩, .function ⟨1⟩, v]) :
    x ∈ [.table ⟨2⟩, .table ⟨3⟩, .function ⟨1⟩, v] := by
  induction way with
  | here => exact start
  | @inside id _ _ _ _ isPair _ ih =>
    have among : id = ⟨2⟩ ∨ id = ⟨3⟩ := by
      simpa [(noTable id).symm] using start
    exact ih (required_pairs present among isPair).2

theorem required_native (noText : ∀ bytes, v ≠ .str bytes) :
    (required v).Native (.table ⟨2⟩) := by
  have tables {keys : List Value} {id : TableId}
      (way : (required v).Way (.table ⟨2⟩) keys (.table id)) : id = ⟨2⟩ ∨ id = ⟨3⟩ := by
    simpa [(noTable id).symm] using required_ways present noTable way (by simp)
  constructor
  · intro keys id way
    have size : (required v).tables.size = 4 := by
      rw [required, size_tables_searched, size_tables_searched]
      rfl
    rw [size]
    rcases tables way with rfl | rfl <;> decide
  · rintro keys id way ⟨key, x⟩ isPair
    obtain ⟨s, rfl⟩ := (required_pairs present (tables way) isPair).1
    exact ⟨⟨s, rfl⟩, rfl⟩
  · intro keys bytes way
    have among := required_ways present noTable way (by simp)
    exact absurd (by simpa using among) (noText bytes).symm

/-- Only the value that is one more can lack a copy. -/
theorem required_complete (copied : ¬ v.IsForeign) (keys : List Value) (x : Value)
    (way : (required v).Way (.table ⟨2⟩) keys x) : ¬ x.IsForeign := by
  have among := required_ways present noTable way (by simp)
  simp only [List.mem_cons, List.not_mem_nil, or_false] at among
  rcases among with rfl | rfl | rfl | rfl
  · exact id
  · exact id
  · exact id
  · exact copied

theorem simple_ratio : (required v).SimpleWay [] (.table ⟨2⟩) [.text "left", .text "ratio"] v := by
  refine .inside List.not_mem_nil (pairsOf_whole.2 List.mem_cons_self) ?_
  refine .inside (by decide) ((pairsOf_part present).2 (.tail _ List.mem_cons_self)) (.here ?_)
  exact fun id same => absurd same (noTable id)

end Entangled

/-- Two, which is an integer. -/
def two : Binary64 := ⟨0x4000000000000000⟩

theorem eq_of_copies_two {t : Machine} {y : Value} (number : t.Copies (.float two) y) :
    y = .int 2 := by
  have whole : two.toInt64? = some 2 := by decide
  cases number with
  | @integral _ i equal =>
    have exchanged := Binary64.compareInt?_eq_iff.1 (eq_of_beq equal)
    rw [whole] at exchanged
    exact congrArg Value.int (Option.some.inj exchanged).symm
  | float fractional =>
    have equal := Binary64.compareInt?_eq_iff.2 whole
    have different := fractional 2
    rw [Value.rawEquals, equal] at different
    cases different

/-- The one table is copied twice, without the way back; with a thread in it nothing is copied. -/
theorem snapshot_faithful_entangled :
    (∃ snap functions copy left right t,
      snapshot call ⟨entangled (.float two), []⟩ "m" =
        (.ok snap, ⟨required (.float two), functions⟩) ∧
      (Snapshot.rebuild snap).runOn {} = (.ok (.table copy), t) ∧
      t.Way (.table copy) [.text "left"] (.table left) ∧
      t.Way (.table copy) [.text "right"] (.table right) ∧ left ≠ right ∧
      t.Way (.table copy) [.text "left", .text "ratio"] (.int 2) ∧
      ∀ y, ¬ t.Way (.table copy) [.text "left", .text "up"] y) ∧
    ∃ path functions, snapshot call ⟨entangled (.thread 0), []⟩ "m" =
      (.error (.error (.thread path)), ⟨required (.thread 0), functions⟩) := by
  constructor
  · have present : Value.float two ≠ .nil := by decide
    have noTable (id : TableId) : Value.float two ≠ .table id := fun same => by cases same
    have noText (bytes : ByteArray) : Value.float two ≠ .str bytes := fun same => by cases same
    obtain ⟨snap, functions, taken, becomes, -⟩ :=
      (snapshot_faithful call (within_entangled (.float two))
        (required_native (v := .float two) present noTable noText)).1 (required_complete present noTable id)
    obtain ⟨copy, t, run, faithful⟩ := becomes {}
    obtain ⟨first, toLeft, copies⟩ := faithful.every _ _ (simple_part (v := .float two) List.mem_cons_self)
    obtain ⟨second, toRight, copies'⟩ :=
      faithful.every _ _ (simple_part (v := .float two) (.tail _ List.mem_cons_self))
    obtain ⟨ratio, toRatio, number⟩ := faithful.every _ _ (simple_ratio (v := .float two) present noTable)
    cases copies with
    | table _ left =>
    cases copies' with
    | table _ right =>
    refine ⟨snap, functions, copy, left, right, t, taken, run, toLeft, toRight, ?_, ?_, ?_⟩
    · rintro rfl
      have same := faithful.apart _ _ _ toLeft toRight
      simp only [List.cons.injEq, Value.text_inj, and_true] at same
      exact absurd same (by decide)
    · exact eq_of_copies_two number ▸ toRatio
    · intro y way
      obtain ⟨x, simple, -⟩ := faithful.only _ _ way
      exact not_simple_up present simple
  · have present : Value.thread 0 ≠ .nil := by decide
    have noTable (id : TableId) : Value.thread 0 ≠ .table id := fun same => by cases same
    have noText (bytes : ByteArray) : Value.thread 0 ≠ .str bytes := fun same => by cases same
    obtain ⟨e, functions, failed, ⟨keys, x, way, refused⟩, -⟩ :=
      (snapshot_faithful call (within_entangled (.thread 0))
        (required_native (v := .thread 0) present noTable noText)).2
          ⟨_, .thread 0, (simple_ratio present noTable).way, trivial⟩
    have among := required_ways present noTable way (by simp)
    simp only [List.mem_cons, List.not_mem_nil, or_false] at among
    rcases among with rfl | rfl | rfl | rfl
    · cases refused
    · cases refused
    · cases refused
    · cases refused with
      | thread _ path => exact ⟨path, functions, failed⟩

end Guest

end ScriptHost
