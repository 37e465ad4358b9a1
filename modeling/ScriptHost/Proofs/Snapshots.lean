import Mathlib.Data.List.Nodup
import ScriptHost.Bridge.Snapshot
import ScriptHost.Proofs.KeyPaths
import ScriptHost.Proofs.TableMap

/-!
# What a snapshot holds

A snapshot is a tree, and what it is of is a graph: the tree has what simple ways lead to, each
under the keys of its way.  A way back to a table that it is inside of is cut off there, and nothing
else is; a table that lies on several ways is in the tree once for each of them.
-/

namespace ScriptHost

namespace Value

/-- A boolean, a number or a text. -/
def IsPlain : Value → Prop
  | .bool _ | .int _ | .float _ => True
  | .str bytes => ∃ s : String, bytes = s.toByteArray
  | _ => False

/-- A value that belongs to its interpreter and has no copy. -/
def IsForeign : Value → Prop
  | .thread _ | .userdata _ | .pointer | .fault _ => True
  | _ => False

/-- What a copy that meets a value fails with. -/
inductive Refused : Value → BridgeError → Prop where
  | thread (index : Nat) (path : String) : Refused (.thread index) (.thread path)
  | userdata (index : Nat) (path : String) :
      Refused (.userdata index) (.unsupported path "userdata")
  | pointer (path : String) : Refused .pointer (.unsupported path "lightuserdata")
  | fault (index : Nat) (path : String) : Refused (.fault index) (.unsupported path "error")

/-- A value and what stands for it in a snapshot. -/
inductive Shown : Value → Snapshot → Prop where
  | bool (b : Bool) : Shown (.bool b) (.bool b)
  | int (i : Int64) : Shown (.int i) (.int i)
  | integral {x : Binary64} {i : Int64} (equal : x.toInt64? = some i) : Shown (.float x) (.int i)
  | float {x : Binary64} (fractional : x.toInt64? = none) : Shown (.float x) (.float x)
  | text (s : String) : Shown (.text s) (.str s)
  | table (id : TableId) (entries : List (Snapshot × Snapshot)) :
      Shown (.table id) (.table entries)
  | function (id : FunctionId) (handle : GuestFunction) :
      Shown (.function id) (.function handle)

theorem Refused.isForeign {v : Value} {e : BridgeError} (refused : v.Refused e) :
    v.IsForeign := by
  cases refused <;> trivial

theorem Shown.not_foreign {v : Value} {item : Snapshot} (shown : v.Shown item) :
    ¬ v.IsForeign := by
  cases shown <;> exact id

end Value

namespace Machine

/--
The tables from a value on are tables of the machine, their keys are plain values, and all strings
are texts.
-/
structure Native (s : Machine) (v : Value) : Prop where
  known : ∀ keys id, s.Way v keys (.table id) → id.index < s.tables.size
  keys : ∀ keys id, s.Way v keys (.table id) →
    ∀ pair ∈ s.pairsOf id, pair.1.IsPlain ∧ Table.isKey pair.1
  texts : ∀ keys bytes, s.Way v keys (.str bytes) → ∃ text : String, bytes = text.toByteArray

theorem Native.inside {s : Machine} {id : TableId} {key v : Value} (native : s.Native (.table id))
    (isPair : (key, v) ∈ s.pairsOf id) : s.Native v where
  known keys other way := native.known (key :: keys) other (.inside isPair way)
  keys keys other way := native.keys (key :: keys) other (.inside isPair way)
  texts keys bytes way := native.texts (key :: keys) bytes (.inside isPair way)

end Machine

namespace Snapshot

/-- The key that a snapshot is of; it is nil if the snapshot is of none. -/
def key : Snapshot → Value
  | bool b => .bool b
  | int i => .int i
  | float x => .float x
  | str s => .text s
  | _ => .nil

/-- A snapshot has a part under some keys. -/
inductive At : Snapshot → List Value → Snapshot → Prop where
  | here {snap : Snapshot} (present : snap.isNil = false) : At snap [] snap
  | inside {entries : List (Snapshot × Snapshot)} {k item part : Snapshot} {keys : List Value}
      (isRow : (k, item) ∈ entries) (onward : At item keys part) :
      At (table entries) (k.key :: keys) part

/-- A snapshot of a value: its tables have distinct keys, and no value is missing. -/
inductive Sound : Snapshot → Prop where
  | bool (b : Bool) : Sound (bool b)
  | int (i : Int64) : Sound (int i)
  | float (x : Binary64) : Sound (float x)
  | str (s : String) : Sound (str s)
  | function (handle : GuestFunction) : Sound (function handle)
  | table {entries : List (Snapshot × Snapshot)}
      (keys : ∀ row ∈ entries, Table.isKey row.1.key ∧ row.1.key.asKey = row.1.key)
      (distinct : (entries.map (·.1.key)).Nodup)
      (items : ∀ row ∈ entries, row.2.Sound) : Sound (table entries)

theorem Sound.present {snap : Snapshot} (sound : snap.Sound) : snap.isNil = false := by
  cases sound <;> rfl

theorem At.present {snap part : Snapshot} {keys : List Value} (isPart : snap.At keys part) :
    snap.isNil = false := by
  cases isPart with
  | here present => exact present
  | inside => rfl

/-! ## Computations of snapshots -/

section Ends

variable {α β : Type} {good : α → Prop} {refused : BridgeError → Prop}

/-- A computation ends with a good result or with a refusal, whatever functions were met before. -/
def Ends (m : SnapshotM α) (good : α → Prop) (refused : BridgeError → Prop) : Prop :=
  ∀ functions, (∃ a after, m.run.run functions = (.ok a, after) ∧ good a) ∨
    ∃ e after, m.run.run functions = (.error (.error e), after) ∧ refused e

theorem Ends.pure {a : α} (isGood : good a) : Ends (Pure.pure a) good refused :=
  fun functions => .inl ⟨a, functions, rfl, isGood⟩

theorem Ends.throw {e : BridgeError} (isRefused : refused e) :
    Ends (MonadExcept.throw (Stop.error e)) good refused :=
  fun functions => .inr ⟨e, functions, rfl, isRefused⟩

theorem Ends.bind {m : SnapshotM α} {f : α → SnapshotM β} {good' : β → Prop}
    (first : Ends m good refused) (rest : ∀ a, good a → Ends (f a) good' refused) :
    Ends (m >>= f) good' refused := by
  intro functions
  rcases first functions with ⟨a, after, run, isGood⟩ | ⟨e, after, run, isRefused⟩
  · have onward : (m >>= f).run.run functions = (f a).run.run after := by
      rw [ExceptT.run_bind, StateT.run_bind, run]
      rfl
    rw [onward]
    exact rest a isGood after
  · refine .inr ⟨e, after, ?_, isRefused⟩
    rw [ExceptT.run_bind, StateT.run_bind, run]
    rfl

theorem Ends.mono {m : SnapshotM α} {good' : α → Prop} {refused' : BridgeError → Prop}
    (ends : Ends m good refused) (better : ∀ a, good a → good' a)
    (worse : ∀ e, refused e → refused' e) : Ends m good' refused' := by
  intro functions
  rcases ends functions with ⟨a, after, run, isGood⟩ | ⟨e, after, run, isRefused⟩
  · exact .inl ⟨a, after, run, better a isGood⟩
  · exact .inr ⟨e, after, run, worse e isRefused⟩

end Ends

/-! ## The entries of a table -/

section Entries

variable {good : Value → Snapshot → Prop} {refused : BridgeError → Prop}
  {pairs : List (Value × Value)} {rows : List (Snapshot × Snapshot)}

/-- The rows of a snapshot and the pairs that they are copied from, of which some are left out. -/
structure Rows (good : Value → Snapshot → Prop) (pairs : List (Value × Value))
    (rows : List (Snapshot × Snapshot)) : Prop where
  every : ∀ pair ∈ pairs, ∃ item, good pair.2 item ∧
    (item.isNil = false → ∃ k : Snapshot, k.key = pair.1 ∧ (k, item) ∈ rows)
  only : ∀ row ∈ rows, row.2.isNil = false ∧ ∃ v, (row.1.key, v) ∈ pairs ∧ good v row.2
  keys : (rows.map (·.1.key)).Sublist (pairs.map (·.1))

theorem Rows.nil : Rows good [] [] where
  every _ inside := absurd inside List.not_mem_nil
  only _ inside := absurd inside List.not_mem_nil
  keys := .slnil

/-- A pair whose value is cut off is left out; the others stay as they are. -/
theorem Rows.drop {k v : Value} {item : Snapshot} (isGood : good v item)
    (cut : item.isNil = true) (rest : Rows good pairs rows) : Rows good ((k, v) :: pairs) rows where
  every := by
    refine List.forall_mem_cons.2 ⟨⟨item, isGood, fun present => ?_⟩, rest.every⟩
    rw [cut] at present
    cases present
  only row inside := by
    obtain ⟨present, w, isPair, isGood⟩ := rest.only row inside
    exact ⟨present, w, List.mem_cons_of_mem _ isPair, isGood⟩
  keys := rest.keys.cons _

theorem Rows.keep {k : Snapshot} {v : Value} {item : Snapshot} (isGood : good v item)
    (present : item.isNil = false) (rest : Rows good pairs rows) :
    Rows good ((k.key, v) :: pairs) ((k, item) :: rows) where
  every := by
    refine List.forall_mem_cons.2 ⟨⟨item, isGood, fun _ => ⟨k, rfl, List.mem_cons_self⟩⟩, ?_⟩
    intro pair inside
    obtain ⟨other, isGood, kept⟩ := rest.every pair inside
    refine ⟨other, isGood, fun present => ?_⟩
    obtain ⟨name, same, isRow⟩ := kept present
    exact ⟨name, same, List.mem_cons_of_mem _ isRow⟩
  only := by
    refine List.forall_mem_cons.2 ⟨⟨present, v, List.mem_cons_self, isGood⟩, fun row inside => ?_⟩
    obtain ⟨present, w, isPair, isGood⟩ := rest.only row inside
    exact ⟨present, w, List.mem_cons_of_mem _ isPair, isGood⟩
  keys := rest.keys.cons_cons _

/-- Pairs are copied one by one, where keys always are. -/
theorem entries_ends {copy : String → Value → SnapshotM Snapshot} {path : String}
    (keys : ∀ pair ∈ pairs, ∃ k : Snapshot, k.key = pair.1 ∧ copy path pair.1 = pure k)
    (items : ∀ pair ∈ pairs, ∀ place, Ends (copy place pair.2) (good pair.2) refused) :
    Ends (entries copy path pairs) (Rows good pairs) refused := by
  induction pairs with
  | nil => exact .pure .nil
  | cons pair rest ih =>
    obtain ⟨key, v⟩ := pair
    obtain ⟨⟨k, rfl, copied⟩, others⟩ := List.forall_mem_cons.1 keys
    obtain ⟨item, items⟩ := List.forall_mem_cons.1 items
    dsimp only at copied
    rw [entries, copied, pure_bind]
    refine (item _).bind fun item isGood => (ih others items).bind fun rows rest => ?_
    cases cut : item.isNil with
    | true => exact .pure (rest.drop isGood cut)
    | false => exact .pure (rest.keep isGood cut)

end Entries

/-! ## Values -/

variable {s : Machine} {passed : List TableId} {id : TableId} {v : Value}

/-- A snapshot has what simple ways from a value lead to, and nothing else. -/
structure Captures (s : Machine) (passed : List TableId) (v : Value) (snap : Snapshot) : Prop where
  sound : snap.isNil = false → snap.Sound
  shown : ∀ keys x, s.SimpleWay passed v keys x → ∃ part, snap.At keys part ∧ x.Shown part
  only : ∀ keys part, snap.At keys part → ∃ x, s.SimpleWay passed v keys x ∧ x.Shown part

/-- A simple way leads to something that has no copy. -/
def Meets (s : Machine) (passed : List TableId) (v : Value) (e : BridgeError) : Prop :=
  ∃ keys x, s.SimpleWay passed v keys x ∧ x.Refused e

/-- A value that is no table is captured by what shows it. -/
theorem Captures.of_leaf {snap : Snapshot} (noTable : ∀ id, v ≠ .table id) (shown : v.Shown snap)
    (sound : snap.Sound) : Captures s passed v snap where
  sound _ := sound
  shown keys x simple := by
    obtain ⟨rfl, rfl⟩ := simple.way.of_ne_table noTable
    exact ⟨snap, .here sound.present, shown⟩
  only keys part isPart := by
    cases isPart with
    | here => exact ⟨v, .here fun id same => absurd same (noTable id), shown⟩
    | inside =>
      cases shown
      exact absurd rfl (noTable _)

/-- A table inside itself is cut off. -/
theorem Captures.cut (isPassed : id ∈ passed) : Captures s passed (.table id) .nil where
  sound present := by cases present
  shown keys x simple := by
    cases simple with
    | here apart => exact absurd isPassed (apart id rfl)
    | inside apart => exact absurd isPassed apart
  only keys part isPart := absurd isPart.present (by simp [isNil])

/-- A table is captured by rows that capture what it holds. -/
theorem Captures.table {rows : List (Snapshot × Snapshot)} (apart : id ∉ passed)
    (keys : ∀ pair ∈ s.pairsOf id, Table.isKey pair.1)
    (copied : Rows (Captures s (id :: passed)) (s.pairsOf id) rows) :
    Captures s passed (.table id) (.table rows) where
  sound _ := by
    refine .table (fun row inside => ?_) ?_ fun row inside => ?_
    · obtain ⟨-, v, isPair, -⟩ := copied.only row inside
      exact ⟨keys _ isPair, (Table.mem_live.1 isPair).1⟩
    · exact (Table.live_keys_nodup _).sublist copied.keys
    · obtain ⟨present, v, -, captures⟩ := copied.only row inside
      exact captures.sound present
  shown way x simple := by
    cases simple with
    | here => exact ⟨_, .here rfl, .table id rows⟩
    | inside _ isPair onward =>
      obtain ⟨item, captures, kept⟩ := copied.every _ isPair
      obtain ⟨part, isPart, shown⟩ := captures.shown _ _ onward
      obtain ⟨k, same, isRow⟩ := kept isPart.present
      dsimp only at same
      subst same
      exact ⟨part, .inside isRow isPart, shown⟩
  only way part isPart := by
    cases isPart with
    | here =>
      refine ⟨.table id, .here ?_, .table id rows⟩
      rintro _ ⟨⟩
      exact apart
    | inside isRow onward =>
      obtain ⟨-, v, isPair, captures⟩ := copied.only _ isRow
      obtain ⟨x, simple, shown⟩ := captures.only _ _ onward
      exact ⟨x, .inside apart isPair simple, shown⟩

theorem Meets.inside {key : Value} {e : BridgeError} (apart : id ∉ passed)
    (isPair : (key, v) ∈ s.pairsOf id) (meets : Meets s (id :: passed) v e) :
    Meets s passed (.table id) e := by
  obtain ⟨keys, x, simple, refused⟩ := meets
  exact ⟨key :: keys, x, .inside apart isPair simple, refused⟩

/-- A plain key is copied in every place. -/
theorem take_key {key : Value} (plain : key.IsPlain) (final : key.asKey = key) :
    ∃ k : Snapshot, k.key = key ∧ ∀ depth passed path, take s depth passed path key = pure k := by
  cases key with
  | bool b => exact ⟨.bool b, rfl, fun _ _ _ => by rw [take]⟩
  | int i => exact ⟨.int i, rfl, fun _ _ _ => by rw [take]⟩
  | float x =>
    have fractional : x.toInt64? = none := by
      cases integral : x.toInt64? with
      | none => rfl
      | some i => simp [Value.asKey, integral] at final
    exact ⟨.float x, rfl, fun _ _ _ => by rw [take, fractional]⟩
  | str bytes =>
    obtain ⟨text, rfl⟩ := plain
    exact ⟨.str text, rfl, fun _ _ _ => by rw [take, Utf8.decode_toByteArray]⟩
  | _ => cases plain

/-- Tables of a machine without repetition are no more than the machine has. -/
theorem length_le_of_nodup {ids : List TableId} (distinct : ids.Nodup)
    (known : ∀ id ∈ ids, id.index < s.tables.size) : ids.length ≤ s.tables.size := by
  have among : ids ⊆ (List.range s.tables.size).map TableId.mk := fun id inside =>
    List.mem_map.2 ⟨id.index, List.mem_range.2 (known id inside), rfl⟩
  have short := (List.subperm_of_subset distinct among).length_le
  rwa [List.length_map, List.length_range] at short

theorem take_passed (depth : Nat) (path : String) (isPassed : id ∈ passed) :
    Ends (take s depth passed path (.table id)) (Captures s passed (.table id))
      (Meets s passed (.table id)) := by
  have cut : take s depth passed path (.table id) = pure .nil := by
    cases depth with
    | zero => rw [take, if_pos isPassed]
    | succ => rw [take, if_pos isPassed]
  rw [cut]
  exact .pure (.cut isPassed)

/-- What is no table is copied by itself or refused. -/
theorem take_leaf (depth : Nat) (path : String) (native : s.Native v) (present : v.isNil = false)
    (noTable : ∀ id, v ≠ .table id) :
    Ends (take s depth passed path v) (Captures s passed v) (Meets s passed v) := by
  have foreign {e : BridgeError} (refused : v.Refused e) : Meets s passed v e :=
    ⟨[], v, .here fun id same => absurd same (noTable id), refused⟩
  cases v with
  | nil => cases present
  | bool b =>
    rw [take]
    exact .pure (.of_leaf noTable (.bool b) (.bool b))
  | int i =>
    rw [take]
    exact .pure (.of_leaf noTable (.int i) (.int i))
  | float x =>
    rw [take]
    cases integral : x.toInt64? with
    | some i => exact .pure (.of_leaf noTable (.integral integral) (.int i))
    | none => exact .pure (.of_leaf noTable (.float integral) (.float x))
  | str bytes =>
    obtain ⟨text, rfl⟩ := native.texts [] bytes (.here _)
    rw [take, Utf8.decode_toByteArray]
    exact .pure (.of_leaf noTable (.text text) (.str text))
  | table id => exact absurd rfl (noTable id)
  | function id =>
    rw [take]
    intro functions
    exact .inl ⟨_, functions ++ [.function id], rfl,
      .of_leaf noTable (.function id _) (.function ⟨functions.length, path⟩)⟩
  | thread index =>
    rw [take]
    exact .throw (foreign (.thread index path))
  | userdata index => cases depth <;> exact .throw (foreign (.userdata index path))
  | pointer => cases depth <;> exact .throw (foreign (.pointer path))
  | fault index => cases depth <;> exact .throw (foreign (.fault index path))

/--
The copy of a value captures it, or fails at something that has no copy.  The tables passed so far
are distinct, so the depth does not run out before the tables of the machine do.
-/
theorem take_ends (depth : Nat) (path : String) (native : s.Native v) (present : v.isNil = false)
    (distinct : passed.Nodup) (known : ∀ id ∈ passed, id.index < s.tables.size)
    (deep : s.tables.size ≤ depth + passed.length) :
    Ends (take s depth passed path v) (Captures s passed v) (Meets s passed v) := by
  induction depth generalizing v passed path with
  | zero =>
    by_cases isTable : ∃ id, v = .table id
    · obtain ⟨id, rfl⟩ := isTable
      by_cases isPassed : id ∈ passed
      · exact take_passed 0 path isPassed
      · -- there would be more tables than the machine has
        have short := length_le_of_nodup (List.nodup_cons.2 ⟨isPassed, distinct⟩)
          (List.forall_mem_cons.2 ⟨native.known [] id (.here _), known⟩)
        rw [List.length_cons] at short
        omega
    · exact take_leaf 0 path native present fun id same => isTable ⟨id, same⟩
  | succ depth ih =>
    by_cases isTable : ∃ id, v = .table id
    · obtain ⟨id, rfl⟩ := isTable
      by_cases isPassed : id ∈ passed
      · exact take_passed (depth + 1) path isPassed
      · have plain := native.keys [] id (.here _)
        have inner (pair : Value × Value) (isPair : pair ∈ s.pairsOf id) (place : String) :
            Ends (take s depth (id :: passed) place pair.2) (Captures s (id :: passed) pair.2)
              (Meets s passed (.table id)) := by
          have there : pair.2.isNil = false := by
            have notNil := (Table.mem_live.1 isPair).2.2
            cases held : pair.2 <;> simp_all [Value.isNil]
          refine (ih place (native.inside isPair) there (List.nodup_cons.2 ⟨isPassed, distinct⟩)
            (List.forall_mem_cons.2 ⟨native.known [] id (.here _), known⟩) ?_).mono
            (fun _ captures => captures) fun _ meets => meets.inside isPassed isPair
          rw [List.length_cons]
          omega
        rw [take, if_neg isPassed]
        refine (entries_ends (fun pair isPair => ?_) inner).bind fun rows copied => ?_
        · obtain ⟨k, same, copied⟩ := take_key (plain pair isPair).1 (Table.mem_live.1 isPair).1
          exact ⟨k, same, copied depth (id :: passed) path⟩
        · exact .pure (.table isPassed (fun pair isPair => (plain pair isPair).2) copied)
    · exact take_leaf (depth + 1) path native present fun id same => isTable ⟨id, same⟩

end Snapshot

end ScriptHost
