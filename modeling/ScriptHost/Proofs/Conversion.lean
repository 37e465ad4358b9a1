import Mathlib.Data.List.Forall2
import ScriptHost.Proofs.Outcome
import ScriptHost.Proofs.TableMap
import ScriptHost.Proofs.Texts
import ScriptHost.Proofs.Unfolding

/-!
# The conversion for the host follows chains

What the host makes of a value is its unfolding, or the conversion stops for a reason that a chain
from the value shows.  The proof is by induction on how many more tables there is room for; a reason
found inside a table is a reason for the table as well.
-/

namespace ScriptHost

namespace Machine

/-- A machine after failures that are no panics were added to another. -/
def Later (s t : Machine) : Prop :=
  ∃ n, t = { s with faults := s.faults ++ Array.replicate n (.error .spentPanic) }

section Later

variable {s t : Machine}

theorem Later.refl (s : Machine) : s.Later s := ⟨0, by simp⟩

theorem Later.objects (later : s.Later t) : t.objects = s.objects := by
  obtain ⟨n, rfl⟩ := later
  rfl

theorem Later.unwrap? (later : s.Later t) (id : TableId) : t.unwrap? id = s.unwrap? id := by
  obtain ⟨n, rfl⟩ := later
  rfl

theorem Later.tables (later : s.Later t) : t.tables = s.tables := by
  obtain ⟨n, rfl⟩ := later
  rfl

theorem Later.addFault (later : s.Later t) :
    s.Later { t with faults := t.faults.push (.error .spentPanic) } := by
  obtain ⟨n, rfl⟩ := later
  exact ⟨n + 1, by simp [Array.replicate_succ]⟩

/-- A later machine raises nothing new. -/
theorem Later.panic {index : Nat} {text : String} (later : s.Later t)
    (found : t.faults[index]? = some (.panic (some text))) :
    s.faults[index]? = some (.panic (some text)) := by
  obtain ⟨n, rfl⟩ := later
  simp only [Array.getElem?_append] at found
  split at found
  · exact found
  · simp [Array.getElem?_replicate] at found

end Later

/-- The same value, or two caught failures, which the host does not tell apart. -/
inductive Alike : Value → Value → Prop where
  | same (v : Value) : Alike v v
  | faults (i j : Nat) : Alike (.fault i) (.fault j)

/-- Chains from a value on have at most so many tables. -/
def Shallow (s : Machine) (v : Value) (depth : Nat) : Prop :=
  ∀ chain, s.Chain v chain → chain.length ≤ depth

/-- Why a conversion inside given tables, with room for so many more, has no result. -/
inductive Stops (s : Machine) (depth : Nat) (passed : List TableId) (v : Value) :
    Stop CrossingError → Prop where
  | again {id : TableId} (reaches : s.Reaches v id) (back : id ∈ passed ∨ s.Circular id) :
      Stops s depth passed v (.error .cyclic)
  | deep {chain : List TableId} (h : s.Chain v chain) (distinct : chain.Nodup)
      (apart : ∀ id ∈ chain, id ∉ passed) (long : chain.length = depth + 1) :
      Stops s depth passed v (.error (.tooDeep Crossing.depthLimit))
  | alarm {id : TableId} {text : String} (reaches : s.Reaches v id)
      (alarming : s.Alarming id text) : Stops s depth passed v (.panic text)
  | unnamed {id : TableId} (reaches : s.Reaches v id) (unnamed : s.Unnamed id) :
      Stops s depth passed v .endless

/-- A conversion that fails inside a table fails for a reason that the table has as well. -/
theorem Stops.outward {s : Machine} {depth : Nat} {passed : List TableId} {id : TableId}
    {v : Value} {stop : Stop CrossingError} (plain : s.Plain id) (holds : s.Holds id v)
    (fresh : id ∉ passed) (stops : s.Stops depth (id :: passed) v stop) :
    s.Stops (depth + 1) passed (.table id) stop := by
  cases stops with
  | again reaches back =>
    refine .again (reaches.outward plain holds) ?_
    rcases back with back | circular
    · rcases List.mem_cons.1 back with rfl | back
      · obtain ⟨chain, h, inside⟩ := reaches
        exact .inr ⟨chain, .cons plain holds h, inside⟩
      · exact .inl back
    · exact .inr circular
  | deep h distinct apart long =>
    refine .deep (.cons plain holds h) (List.nodup_cons.2 ⟨fun inside => ?_, distinct⟩) ?_
      (congrArg (· + 1) long)
    · exact apart id inside List.mem_cons_self
    · intro other inside
      rcases List.mem_cons.1 inside with rfl | inside
      · exact fresh
      · exact fun old => apart other inside (List.mem_cons_of_mem _ old)
  | alarm reaches alarming => exact .alarm (reaches.outward plain holds) alarming
  | unnamed reaches unnamed => exact .unnamed (reaches.outward plain holds) unnamed

/-- A computation converts a value: to its unfolding, or it stops for a reason. -/
def Converts (s : Machine) (depth : Nat) (passed : List TableId) (v : Value)
    (m : CrossingM HostValue) : Prop :=
  ∀ t, s.Later t →
    (∃ h u, m.runOn t = (.ok h, u) ∧ s.Later u ∧ s.Unfolds v h ∧ s.Shallow v depth) ∨
      ∃ stop u, m.runOn t = (.error stop, u) ∧ s.Stops depth passed v stop

theorem Alike.eq_int {v : Value} {i : Int64} (like : Alike v (.int i)) : v = .int i := by
  cases like
  rfl

end Machine

namespace Crossing

open Machine MachineM

variable {s t : Machine}

/-- What the host takes out of a table is there, unless it is a panic that goes on. -/
theorem runOn_receive (later : s.Later t) (v : Value) :
    (∃ w u, (ScriptM.receive v : CrossingM Value).runOn t = (.ok w, u) ∧ s.Later u ∧ Alike v w) ∨
      ∃ text u, s.Raises v text ∧
        (ScriptM.receive v : CrossingM Value).runOn t = (.error (.panic text), u) := by
  cases v with
  | fault index =>
    rw [ScriptM.receive, runOn_bind_ok (runOn_fault index t)]
    cases found : t.faults[index]? with
    | none => exact .inl ⟨_, _, rfl, later.addFault, .faults _ _⟩
    | some f =>
      cases f with
      | error e => exact .inl ⟨_, _, rfl, later, .same _⟩
      | panic text =>
        cases text with
        | none => exact .inl ⟨_, _, rfl, later.addFault, .faults _ _⟩
        | some text => exact .inr ⟨text, _, ⟨index, rfl, later.panic found⟩, rfl⟩
  | _ => exact .inl ⟨_, _, rfl, later, .same _⟩

theorem runOn_receiveEntries (pairs : List (Value × Value)) (later : s.Later t) :
    (∃ found u, (pairs.mapM receiveEntry).runOn t = (.ok found, u) ∧ s.Later u ∧
      List.Forall₂ (fun a b => Alike a.1 b.1 ∧ Alike a.2 b.2) pairs found) ∨
      ∃ pair ∈ pairs, ∃ text u, (s.Raises pair.1 text ∨ s.Raises pair.2 text) ∧
        (pairs.mapM receiveEntry).runOn t = (.error (.panic text), u) := by
  induction pairs generalizing t with
  | nil => exact .inl ⟨[], t, rfl, later, .nil⟩
  | cons pair rest ih =>
    rw [List.mapM_cons]
    obtain ⟨k, u, tookKey, later, likeKey⟩ | ⟨text, u, raises, tookKey⟩ :=
      runOn_receive later pair.1
    swap
    · refine .inr ⟨pair, List.mem_cons_self, text, u, .inl raises, ?_⟩
      exact runOn_bind_stop (runOn_bind_stop tookKey _) _
    obtain ⟨v, u', tookValue, later, likeValue⟩ | ⟨text, u', raises, tookValue⟩ :=
      runOn_receive later pair.2
    swap
    · refine .inr ⟨pair, List.mem_cons_self, text, u', .inr raises, ?_⟩
      refine runOn_bind_stop ?_ _
      rw [receiveEntry, runOn_bind_ok tookKey]
      exact runOn_bind_stop tookValue _
    have took : (receiveEntry pair).runOn t = (.ok (k, v), u') := by
      rw [receiveEntry, runOn_bind_ok tookKey, runOn_bind_ok tookValue, runOn_pure]
    rw [runOn_bind_ok took]
    obtain ⟨found, w, others, later, likes⟩ | ⟨other, inside, text, w, raises, others⟩ := ih later
    · refine .inl ⟨(k, v) :: found, w, ?_, later, .cons ⟨likeKey, likeValue⟩ likes⟩
      rw [runOn_bind_ok others, runOn_pure]
    · exact .inr ⟨other, List.mem_cons_of_mem _ inside, text, w, raises, runOn_bind_stop others _⟩

/-! ### Entries under integers -/

theorem sequence?_of_integers (indexed : List (Int64 × Value)) :
    sequence? (indexed.map fun entry => (.int entry.1, entry.2)) =
      some ((indexed.mergeSort fun a b => a.1.toInt ≤ b.1.toInt).map (·.2)) := by
  have all : (indexed.map fun entry => (Value.int entry.1, entry.2)).mapM indexOf? =
      some (indexed.map fun entry => (entry.1.toInt, entry.2)) := by
    induction indexed with
    | nil => rfl
    | cons entry rest ih => simp [List.mapM_cons, indexOf?, ih]
  rw [sequence?, all]
  simp only [Option.bind_eq_bind, Option.bind_some, Option.pure_def, Option.some.injEq]
  have sorted := List.map_mergeSort (f := fun entry : Int64 × Value => (entry.1.toInt, entry.2))
    (r := fun a b => a.1.toInt ≤ b.1.toInt) (s := fun a b => a.1 ≤ b.1) (l := indexed)
    fun _ _ _ _ => rfl
  rw [← sorted, List.map_map]
  rfl

theorem sequence?_of_other {entries : List (Value × Value)}
    (mixed : ∃ entry ∈ entries, ∀ i, entry.1 ≠ .int i) : sequence? entries = none := by
  have none : entries.mapM indexOf? = none := by
    obtain ⟨⟨k, v⟩, inside, other⟩ := mixed
    have unindexed : indexOf? (k, v) = none := by
      cases k with
      | int i => exact absurd rfl (other i)
      | _ => rfl
    induction entries with
    | nil => simp at inside
    | cons entry rest ih =>
      rcases List.mem_cons.1 inside with rfl | inside
      · simp [List.mapM_cons, unindexed]
      · simp [List.mapM_cons, ih inside]
  rw [sequence?, none]
  rfl

/-- The keys of entries are integers, or one is not. -/
theorem integers_or_other (entries : List (Value × Value)) :
    (∃ indexed : List (Int64 × Value),
      entries = indexed.map fun entry => (Value.int entry.1, entry.2)) ∨
      ∃ entry ∈ entries, ∀ i, entry.1 ≠ .int i := by
  induction entries with
  | nil => exact .inl ⟨[], rfl⟩
  | cons entry rest ih =>
    obtain ⟨k, v⟩ := entry
    rcases ih with ⟨indexed, rfl⟩ | ⟨other, inside, isOther⟩
    · cases k with
      | int i => exact .inl ⟨(i, v) :: indexed, rfl⟩
      | _ => exact .inr ⟨_, List.mem_cons_self, nofun⟩
    · exact .inr ⟨other, List.mem_cons_of_mem _ inside, isOther⟩

/-- The order of entries depends on their integers only. -/
theorem mapM_sorted_congr {convert : Value → CrossingM HostValue}
    {indexed found : List (Int64 × Value)}
    (same : indexed.map (fun entry => (entry.1, convert entry.2)) =
      found.map fun entry => (entry.1, convert entry.2)) :
    ((indexed.mergeSort fun a b => a.1.toInt ≤ b.1.toInt).map (·.2)).mapM convert =
      ((found.mergeSort fun a b => a.1.toInt ≤ b.1.toInt).map (·.2)).mapM convert := by
  have byComputations (entries : List (Int64 × Value)) :
      ((entries.mergeSort fun a b => a.1.toInt ≤ b.1.toInt).map (·.2)).mapM convert =
        (((entries.map fun entry => (entry.1, convert entry.2)).mergeSort
          fun a b => a.1.toInt ≤ b.1.toInt).map (·.2)).mapM id := by
    have sorted := List.map_mergeSort (f := fun entry : Int64 × Value => (entry.1, convert entry.2))
      (r := fun a b => a.1.toInt ≤ b.1.toInt) (s := fun a b => a.1.toInt ≤ b.1.toInt)
      (l := entries) fun _ _ _ _ => rfl
    rw [← sorted, List.map_map, List.mapM_map, List.mapM_map]
    rfl
  rw [byComputations, byComputations, same]

section Likes

variable {convert : Value → CrossingM HostValue} {pairs found : List (Value × Value)}

theorem integers_of_alike {indexed : List (Int64 × Value)}
    (same : ∀ v w, Alike v w → convert v = convert w)
    (likes : List.Forall₂ (fun a b => Alike a.1 b.1 ∧ Alike a.2 b.2)
      (indexed.map fun entry => (Value.int entry.1, entry.2)) found) :
    ∃ others : List (Int64 × Value),
      found = others.map (fun entry => (Value.int entry.1, entry.2)) ∧
        others.map (fun entry => (entry.1, convert entry.2)) =
          indexed.map fun entry => (entry.1, convert entry.2) := by
  induction indexed generalizing found with
  | nil => exact ⟨[], by cases likes; rfl, rfl⟩
  | cons entry rest ih =>
    obtain ⟨⟨k, v⟩, tail, ⟨likeKey, likeValue⟩, likeTail, rfl⟩ := List.forall₂_cons_left_iff.1 likes
    obtain ⟨others, rfl, computations⟩ := ih likeTail
    cases likeKey
    refine ⟨(entry.1, v) :: others, rfl, ?_⟩
    rw [List.map_cons, List.map_cons, computations, same _ _ likeValue]

theorem other_of_alike (likes : List.Forall₂ (fun a b => Alike a.1 b.1 ∧ Alike a.2 b.2) pairs found)
    (mixed : ∃ entry ∈ pairs, ∀ i, entry.1 ≠ .int i) : ∃ entry ∈ found, ∀ i, entry.1 ≠ .int i := by
  induction likes with
  | nil => exact mixed
  | @cons a b pairs found like likes ih =>
    obtain ⟨entry, inside, other⟩ := mixed
    rcases List.mem_cons.1 inside with rfl | inside
    · exact ⟨b, List.mem_cons_self, fun i isInt => other i (isInt ▸ like.1).eq_int⟩
    · obtain ⟨entry, inside, other⟩ := ih ⟨entry, inside, other⟩
      exact ⟨entry, List.mem_cons_of_mem _ inside, other⟩

/-- The host takes entries that are alike for the same. -/
theorem contents_congr (same : ∀ v w, Alike v w → convert v = convert w)
    (likes : List.Forall₂ (fun a b => Alike a.1 b.1 ∧ Alike a.2 b.2) pairs found) :
    contents convert found = contents convert pairs := by
  rcases integers_or_other pairs with ⟨indexed, rfl⟩ | mixed
  · obtain ⟨others, rfl, computations⟩ := integers_of_alike same likes
    rw [contents, contents, sequence?_of_integers, sequence?_of_integers]
    simp only [mapM_sorted_congr computations]
  · have computations : found.mapM (namedEntry convert) = pairs.mapM (namedEntry convert) := by
      clear mixed
      induction likes with
      | nil => rfl
      | cons like likes ih =>
        rw [List.mapM_cons, List.mapM_cons, ih, namedEntry, namedEntry, same _ _ like.1,
          same _ _ like.2]
    rw [contents, contents, sequence?_of_other mixed, sequence?_of_other (other_of_alike likes mixed)]
    simp only [computations]

end Likes

/-! ### The conversion of what a table holds -/

section Contents

variable {convert : Value → CrossingM HostValue} {depth : Nat} {passed : List TableId}

theorem runOn_each {items : List Value} (later : s.Later t)
    (each : ∀ v ∈ items, s.Converts depth passed v (convert v)) :
    (∃ hs u, (items.mapM convert).runOn t = (.ok hs, u) ∧ s.Later u ∧ s.UnfoldsEach items hs ∧
      ∀ v ∈ items, s.Shallow v depth) ∨
      ∃ v ∈ items, ∃ stop u, (items.mapM convert).runOn t = (.error stop, u) ∧
        s.Stops depth passed v stop := by
  induction items generalizing t with
  | nil => exact .inl ⟨[], t, rfl, later, .nil, by simp⟩
  | cons v rest ih =>
    rw [List.mapM_cons]
    obtain ⟨h, u, first, later, unfolds, shallow⟩ | ⟨stop, u, first, stops⟩ :=
      each v List.mem_cons_self t later
    swap
    · exact .inr ⟨v, List.mem_cons_self, stop, u, runOn_bind_stop first _, stops⟩
    rw [runOn_bind_ok first]
    obtain ⟨hs, w, others, later, unfoldsEach, allShallow⟩ | ⟨v', inside, stop, w, others, stops⟩ :=
      ih later fun v' inside => each v' (List.mem_cons_of_mem _ inside)
    · refine .inl ⟨h :: hs, w, ?_, later, .cons unfolds unfoldsEach, ?_⟩
      · rw [runOn_bind_ok others, runOn_pure]
      · exact List.forall_mem_cons.2 ⟨shallow, allShallow⟩
    · exact .inr ⟨v', List.mem_cons_of_mem _ inside, stop, w, runOn_bind_stop others _, stops⟩

/-- Why entries under texts have no result: one of their keys or values, or the text of a key. -/
def EntryStops (s : Machine) (depth : Nat) (passed : List TableId) (pair : Value × Value)
    (stop : Stop CrossingError) : Prop :=
  s.Stops depth passed pair.1 stop ∨ s.Stops depth passed pair.2 stop ∨
    stop = .endless ∧ ∃ h, s.Unfolds pair.1 h ∧ s.objects.text h = none

theorem runOn_namedEntry {pair : Value × Value} (later : s.Later t)
    (key : s.Converts depth passed pair.1 (convert pair.1))
    (value : s.Converts depth passed pair.2 (convert pair.2)) :
    (∃ hk text h u, (namedEntry convert pair).runOn t = (.ok (.str text, h), u) ∧ s.Later u ∧
      s.Unfolds pair.1 hk ∧ s.objects.text hk = some text ∧ s.Unfolds pair.2 h ∧
      s.Shallow pair.1 depth ∧ s.Shallow pair.2 depth) ∨
      ∃ stop u, (namedEntry convert pair).runOn t = (.error stop, u) ∧
        EntryStops s depth passed pair stop := by
  rw [namedEntry]
  obtain ⟨hk, u, first, later, unfoldsKey, shallowKey⟩ | ⟨stop, u, first, stops⟩ := key t later
  swap
  · exact .inr ⟨stop, u, runOn_bind_stop first _, .inl stops⟩
  rw [runOn_bind_ok first]
  cases shown : s.objects.text hk with
  | none =>
    refine .inr ⟨.endless, u, runOn_bind_stop ?_ _, .inr (.inr ⟨rfl, hk, unfoldsKey, shown⟩)⟩
    rw [runOn_textKey, later.objects, shown]
  | some text =>
    have named : (textKey hk).runOn u = (.ok text, u) := by
      rw [runOn_textKey, later.objects, shown]
    rw [runOn_bind_ok named]
    obtain ⟨h, w, second, later, unfolds, shallow⟩ | ⟨stop, w, second, stops⟩ := value u later
    · refine .inl ⟨hk, text, h, w, ?_, later, unfoldsKey, shown, unfolds, shallowKey, shallow⟩
      rw [runOn_bind_ok second, runOn_pure]
    · exact .inr ⟨stop, w, runOn_bind_stop second _, .inr (.inl stops)⟩

theorem runOn_namedEntries {pairs : List (Value × Value)} (later : s.Later t)
    (each : ∀ pair ∈ pairs, s.Converts depth passed pair.1 (convert pair.1) ∧
      s.Converts depth passed pair.2 (convert pair.2)) :
    (∃ hs u, (pairs.mapM (namedEntry convert)).runOn t = (.ok hs, u) ∧ s.Later u ∧
      s.UnfoldsPairs pairs hs ∧
      ∀ pair ∈ pairs, s.Shallow pair.1 depth ∧ s.Shallow pair.2 depth) ∨
      ∃ pair ∈ pairs, ∃ stop u, (pairs.mapM (namedEntry convert)).runOn t = (.error stop, u) ∧
        EntryStops s depth passed pair stop := by
  induction pairs generalizing t with
  | nil => exact .inl ⟨[], t, rfl, later, .nil, by simp⟩
  | cons pair rest ih =>
    rw [List.mapM_cons]
    obtain ⟨convertsKey, convertsValue⟩ := each pair List.mem_cons_self
    obtain ⟨hk, text, h, u, first, later, key, shown, value, shallow⟩ | ⟨stop, u, first, stops⟩ :=
      runOn_namedEntry later convertsKey convertsValue
    swap
    · exact .inr ⟨pair, List.mem_cons_self, stop, u, runOn_bind_stop first _, stops⟩
    rw [runOn_bind_ok first]
    obtain ⟨hs, w, others, later, unfolds, allShallow⟩ | ⟨other, inside, stop, w, others, stops⟩ :=
      ih later fun other inside => each other (List.mem_cons_of_mem _ inside)
    · refine .inl ⟨(.str text, h) :: hs, w, ?_, later, .cons key shown value unfolds, ?_⟩
      · rw [runOn_bind_ok others, runOn_pure]
      · exact List.forall_mem_cons.2 ⟨shallow, allShallow⟩
    · exact .inr ⟨other, List.mem_cons_of_mem _ inside, stop, w, runOn_bind_stop others _, stops⟩

/-- Ascending integers, the same ones in another order. -/
theorem sorted_ascending {indexed : List (Int64 × Value)}
    (distinct : (indexed.map (·.1)).Nodup) :
    (indexed.mergeSort fun a b => a.1.toInt ≤ b.1.toInt).Pairwise
      fun a b => a.1.toInt < b.1.toInt := by
  have sorted : (indexed.mergeSort fun a b => a.1.toInt ≤ b.1.toInt).Pairwise
      fun a b => decide (a.1.toInt ≤ b.1.toInt) = true := by
    refine List.pairwise_mergeSort ?_ ?_ indexed
    · simp only [decide_eq_true_eq]
      omega
    · simp only [Bool.or_eq_true, decide_eq_true_eq]
      omega
  have apart := ((indexed.mergeSort_perm fun a b => a.1.toInt ≤ b.1.toInt).map (·.1)).nodup_iff.2
    distinct
  rw [List.Nodup, List.pairwise_map] at apart
  refine (sorted.and apart).imp fun {a b} both => ?_
  have different : a.1.toInt ≠ b.1.toInt := fun same => both.2 (Int64.toInt_inj.1 same)
  have ordered : a.1.toInt ≤ b.1.toInt := by simpa using both.1
  omega

theorem shallow_of_ne_table {v : Value} (noTable : ∀ id, v ≠ .table id) : s.Shallow v depth := by
  intro chain h
  cases h with
  | last => exact absurd rfl (noTable _)
  | cons => exact absurd rfl (noTable _)

/-- A table that holds shallow values only is one deeper. -/
theorem shallow_table {id : TableId} (inner : ∀ v, s.Holds id v → s.Shallow v depth) :
    s.Shallow (.table id) (depth + 1) := by
  intro chain h
  cases h with
  | last plain => simp
  | cons plain holds chain =>
    have short := inner _ holds _ chain
    rw [List.length_cons]
    omega

theorem runOn_contents {id : TableId} (later : s.Later t) (plain : s.Plain id)
    (fresh : id ∉ passed)
    (each : ∀ v, s.Holds id v → s.Converts depth (id :: passed) v (convert v)) :
    (∃ h u, (contents convert (s.pairsOf id)).runOn t = (.ok h, u) ∧ s.Later u ∧
      s.Unfolds (.table id) h ∧ s.Shallow (.table id) (depth + 1)) ∨
      ∃ stop u, (contents convert (s.pairsOf id)).runOn t = (.error stop, u) ∧
        s.Stops (depth + 1) passed (.table id) stop := by
  rcases integers_or_other (s.pairsOf id) with ⟨indexed, pairs⟩ | mixed
  · have holds : ∀ v ∈ (indexed.mergeSort fun a b => a.1.toInt ≤ b.1.toInt).map (·.2),
        s.Holds id v := by
      intro v inside
      obtain ⟨entry, among, rfl⟩ := List.mem_map.1 inside
      refine ⟨(.int entry.1, entry.2), ?_, .inr rfl⟩
      rw [pairs]
      exact List.mem_map_of_mem (List.mem_mergeSort.1 among)
    rw [pairs, contents, sequence?_of_integers]
    obtain ⟨hs, u, run, later, unfolds, shallow⟩ | ⟨v, inside, stop, u, run, stops⟩ :=
      runOn_each later fun v inside => each v (holds v inside)
    · refine .inl ⟨.list hs, u, ?_, later, ?_, shallow_table fun v held => ?_⟩
      · simp only [runOn_bind_ok run, runOn_pure]
      · have distinct : (indexed.map (·.1)).Nodup := by
          have keys := (s.tables[id.index]?.getD default).live_keys_nodup
          change ((s.pairsOf id).map (·.1)).Nodup at keys
          rw [pairs, List.map_map] at keys
          exact List.Nodup.of_map Value.int (by rwa [List.map_map])
        refine .list plain ?_ (sorted_ascending distinct) unfolds
        rw [pairs]
        exact (indexed.mergeSort_perm _).map _
      · obtain ⟨pair, inside, isHeld⟩ := held
        rw [pairs] at inside
        obtain ⟨entry, among, rfl⟩ := List.mem_map.1 inside
        rcases isHeld with rfl | rfl
        · exact shallow_of_ne_table nofun
        · exact shallow _ (List.mem_map_of_mem (List.mem_mergeSort.2 among))
    · exact .inr ⟨stop, u, by simp only [runOn_bind_stop run],
        stops.outward plain (holds v inside) fresh⟩
  · rw [contents, sequence?_of_other mixed]
    obtain ⟨hs, u, run, later, unfolds, shallow⟩ | ⟨pair, inside, stop, u, run, stops⟩ :=
      runOn_namedEntries later fun pair inside =>
        ⟨each _ ⟨pair, inside, .inl rfl⟩, each _ ⟨pair, inside, .inr rfl⟩⟩
    · refine .inl ⟨.map hs, u, ?_, later, .map plain mixed unfolds, shallow_table fun v held => ?_⟩
      · simp only [runOn_bind_ok run, runOn_pure]
      · obtain ⟨pair, inside, rfl | rfl⟩ := held
        · exact (shallow pair inside).1
        · exact (shallow pair inside).2
    · refine .inr ⟨stop, u, by simp only [runOn_bind_stop run], ?_⟩
      rcases stops with stops | stops | ⟨rfl, unnamed⟩
      · exact stops.outward plain ⟨pair, inside, .inl rfl⟩ fresh
      · exact stops.outward plain ⟨pair, inside, .inr rfl⟩ fresh
      · exact .unnamed plain.reaches ⟨pair, inside, unnamed⟩

end Contents

/-! ### The conversion of a value -/

theorem hostValue_alike {depth : Nat} {passed : List TableId} (v w : Value) (like : Alike v w) :
    hostValue depth passed v = hostValue depth passed w := by
  cases like with
  | same => rfl
  | faults i j => cases depth <;> rfl

theorem runOn_entriesOf (id : TableId) (later : s.Later t) :
    (∃ found u, (entriesOf id).runOn t = (.ok found, u) ∧ s.Later u ∧
      List.Forall₂ (fun a b => Alike a.1 b.1 ∧ Alike a.2 b.2) (s.pairsOf id) found) ∨
      ∃ text u, (entriesOf id).runOn t = (.error (.panic text), u) ∧ s.Alarming id text := by
  rw [entriesOf, runOn_bind_ok (runOn_table id t), later.tables]
  obtain ⟨found, u, run, later, likes⟩ | ⟨pair, inside, text, u, raises | raises, run⟩ :=
    runOn_receiveEntries (s.pairsOf id) later
  · exact .inl ⟨found, u, run, later, likes⟩
  · exact .inr ⟨text, u, run, pair.1, ⟨pair, inside, .inl rfl⟩, raises⟩
  · exact .inr ⟨text, u, run, pair.2, ⟨pair, inside, .inr rfl⟩, raises⟩

theorem converts_of_ne_table {depth : Nat} {passed : List TableId} {v : Value} {h : HostValue}
    (noTable : ∀ id, v ≠ .table id) (unfolds : s.Unfolds v h)
    (run : hostValue depth passed v = pure h) :
    s.Converts depth passed v (hostValue depth passed v) :=
  fun t later => .inl ⟨h, t, by rw [run, runOn_pure], later, unfolds, shallow_of_ne_table noTable⟩

theorem hostValue_table_zero (passed : List TableId) (id : TableId) :
    hostValue 0 passed (.table id) = (do
      match (← get).unwrap? id with
      | some v => return v
      | none => if id ∈ passed then fail .cyclic else fail (.tooDeep depthLimit)) := by
  unfold hostValue
  rfl

theorem hostValue_table_succ (depth : Nat) (passed : List TableId) (id : TableId) :
    hostValue (depth + 1) passed (.table id) = (do
      match (← get).unwrap? id with
      | some v => return v
      | none =>
        if id ∈ passed then fail .cyclic
        else contents (hostValue depth (id :: passed)) (← entriesOf id)) := by
  unfold hostValue
  rfl

section Conversion

variable {depth : Nat} {passed : List TableId} {id : TableId}

/-- A proxy is done at once, whatever the room. -/
theorem proxy_converts {h : HostValue} (stands : s.unwrap? id = some h) :
    s.Converts depth passed (.table id) (hostValue depth passed (.table id)) := by
  intro t later
  have run : (hostValue depth passed (.table id)).runOn t = (.ok h, t) := by
    cases depth with
    | zero => rw [hostValue_table_zero, runOn_bind_ok (runOn_get t), later.unwrap?, stands, runOn_pure]
    | succ => rw [hostValue_table_succ, runOn_bind_ok (runOn_get t), later.unwrap?, stands, runOn_pure]
  refine .inl ⟨h, t, run, later, .proxy stands, fun chain isChain => ?_⟩
  have plain := isChain.head_plain
  rw [Plain, stands] at plain
  cases plain

theorem open_table_converts (plain : s.Plain id) (opened : id ∈ passed) :
    s.Converts depth passed (.table id) (hostValue depth passed (.table id)) := by
  intro t later
  refine .inr ⟨_, t, ?_, .again plain.reaches (.inl opened)⟩
  cases depth with
  | zero =>
    rw [hostValue_table_zero, runOn_bind_ok (runOn_get t), later.unwrap?, plain]
    simp only [if_pos opened, runOn_fail]
  | succ =>
    rw [hostValue_table_succ, runOn_bind_ok (runOn_get t), later.unwrap?, plain]
    simp only [if_pos opened, runOn_fail]

theorem table_converts_zero (plain : s.Plain id) (fresh : id ∉ passed) :
    s.Converts 0 passed (.table id) (hostValue 0 passed (.table id)) := by
  intro t later
  refine .inr ⟨.error (.tooDeep depthLimit), t, ?_, ?_⟩
  · rw [hostValue_table_zero, runOn_bind_ok (runOn_get t), later.unwrap?, plain]
    simp only [if_neg fresh, runOn_fail]
  · exact .deep (.last plain) (List.nodup_singleton id) (by simpa using fresh) rfl

theorem table_converts_succ (plain : s.Plain id) (fresh : id ∉ passed)
    (each : ∀ v, s.Converts depth (id :: passed) v (hostValue depth (id :: passed) v)) :
    s.Converts (depth + 1) passed (.table id) (hostValue (depth + 1) passed (.table id)) := by
  intro t later
  rw [hostValue_table_succ, runOn_bind_ok (runOn_get t), later.unwrap?, plain]
  simp only [if_neg fresh]
  obtain ⟨found, u, run, later, likes⟩ | ⟨text, u, run, alarming⟩ := runOn_entriesOf id later
  · rw [runOn_bind_ok run, contents_congr hostValue_alike likes]
    exact runOn_contents later plain fresh fun v _ => each v
  · exact .inr ⟨_, u, runOn_bind_stop run _, .alarm plain.reaches alarming⟩

theorem other_converts {v : Value} (noTable : ∀ id, v ≠ .table id) :
    s.Converts depth passed v (hostValue depth passed v) := by
  cases v with
  | table id => exact absurd rfl (noTable id)
  | nil => exact converts_of_ne_table noTable .nil (by cases depth <;> rfl)
  | bool b => exact converts_of_ne_table noTable (.bool b) (by cases depth <;> rfl)
  | int i => exact converts_of_ne_table noTable (.int i) (by cases depth <;> rfl)
  | float x =>
    cases integral : x.toInt64? with
    | some i =>
      exact converts_of_ne_table noTable (.integral integral) (by cases depth <;> simp [hostValue, integral])
    | none =>
      exact converts_of_ne_table noTable (.float integral) (by cases depth <;> simp [hostValue, integral])
  | str bytes => exact converts_of_ne_table noTable (.str bytes) (by cases depth <;> rfl)
  | _ => exact converts_of_ne_table noTable (.bare rfl) (by cases depth <;> rfl)

/-- The conversion of a value, by induction on how many more tables there is room for. -/
theorem hostValue_converts (s : Machine) (depth : Nat) (passed : List TableId) (v : Value) :
    s.Converts depth passed v (hostValue depth passed v) := by
  induction depth generalizing passed v with
  | zero =>
    cases v with
    | table id =>
      cases stands : s.unwrap? id with
      | some h => exact proxy_converts stands
      | none =>
        by_cases opened : id ∈ passed
        · exact open_table_converts stands opened
        · exact table_converts_zero stands opened
    | _ => exact other_converts nofun
  | succ depth ih =>
    cases v with
    | table id =>
      cases stands : s.unwrap? id with
      | some h => exact proxy_converts stands
      | none =>
        by_cases opened : id ∈ passed
        · exact open_table_converts stands opened
        · exact table_converts_succ stands opened fun v => ih (id :: passed) v
    | _ => exact other_converts nofun

end Conversion

end Crossing

end ScriptHost
