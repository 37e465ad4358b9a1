import ScriptHost.Proofs.Conversion
import ScriptHost.Proofs.Growth
import ScriptHost.Proofs.NormalForm

/-!
# Script values that mirror host values

A script value mirrors a host value if it unfolds to it, up to the order of pairs, and its chains
are as long as the host value is high.  New tables keep what they mirror while others are added.
-/

namespace ScriptHost

namespace Machine

/-- A region of layered tables that is the same in two machines. -/
def Agree (s t : Machine) (low high : Nat) : Prop :=
  ∀ id : TableId, low ≤ id.index → id.index < high →
    t.pairsOf id = s.pairsOf id ∧ t.handle? id = s.handle? id ∧
      ∀ pair ∈ s.pairsOf id, pair.1.isScalar ∧ Within low high pair.2

/-- What a script value is for the host, with the length of its chains. -/
structure Mirrors (s : Machine) (v : Value) (h : HostValue) : Prop where
  unfolds : ∃ found, s.Unfolds v found ∧ found.Same h
  shallow : ∀ depth, s.Shallow v depth ↔ h.height ≤ depth

variable {s t : Machine} {low high : Nat} {v : Value} {h : HostValue}

section Regions

theorem Agree.symm (agree : s.Agree t low high) : t.Agree s low high := by
  intro id above below
  obtain ⟨pairs, handles, held⟩ := agree id above below
  exact ⟨pairs.symm, handles.symm, pairs ▸ held⟩

theorem Agree.unwrap? {id : TableId} (agree : s.Agree t low high)
    (within : Within low high (.table id)) : t.unwrap? id = s.unwrap? id := by
  rw [Machine.unwrap?, Machine.unwrap?, (agree id within.1 within.2).2.1]

/-- What a table of the region holds stays in the region. -/
theorem Agree.within {id : TableId} (agree : s.Agree t low high)
    (within : Within low high (.table id)) (holds : s.Holds id v) : Within low high v := by
  obtain ⟨pair, inside, rfl | rfl⟩ := holds
  · exact .of_isScalar ((agree id within.1 within.2).2.2 pair inside).1
  · exact ((agree id within.1 within.2).2.2 pair inside).2

theorem Agree.chain {chain : List TableId} (agree : s.Agree t low high)
    (within : Within low high v) (isChain : s.Chain v chain) :
    t.Chain v chain ∧ ∀ id ∈ chain, Within low high (.table id) := by
  induction isChain with
  | last plain =>
    refine ⟨.last ((agree.unwrap? within).trans plain), ?_⟩
    simpa using within
  | cons plain holds _ ih =>
    obtain ⟨chain, inner⟩ := ih (agree.within within holds)
    refine ⟨.cons ((agree.unwrap? within).trans plain) ?_ chain,
      List.forall_mem_cons.2 ⟨within, inner⟩⟩
    obtain ⟨pair, inside, same⟩ := holds
    exact ⟨pair, (agree _ within.1 within.2).1 ▸ inside, same⟩

theorem Agree.shallow {depth : Nat} (agree : s.Agree t low high) (within : Within low high v) :
    t.Shallow v depth ↔ s.Shallow v depth :=
  ⟨fun shallow chain isChain => shallow chain (agree.chain within isChain).1,
    fun shallow chain isChain => shallow chain (agree.symm.chain within isChain).1⟩

/-- The text of what a scalar unfolds to does not depend on objects. -/
theorem Unfolds.text_of_isScalar {k : Value} (unfolds : s.Unfolds k h) (scalar : k.isScalar)
    (a b : Objects) : a.text h = b.text h := by
  cases unfolds with
  | proxy | list | map => cases scalar
  | _ => rfl

mutual

theorem Unfolds.agree (agree : s.Agree t low high) {v : Value} {h : HostValue}
    (within : Within low high v) : s.Unfolds v h → t.Unfolds v h
  | .nil => .nil
  | .bool b => .bool b
  | .int i => .int i
  | .integral equal => .integral equal
  | .float fractional => .float fractional
  | .str bytes => .str bytes
  | .bare isBare => .bare isBare
  | .proxy stands => .proxy ((agree.unwrap? within).trans stands)
  | .list plain pairs ascending each =>
    .list ((agree.unwrap? within).trans plain)
      ((agree _ within.1 within.2).1 ▸ pairs) ascending
      (UnfoldsEach.agree agree (fun v inside => by
        obtain ⟨entry, among, rfl⟩ := List.mem_map.1 inside
        exact ((agree _ within.1 within.2).2.2 _
          (pairs.mem_iff.1 (List.mem_map.2 ⟨entry, among, rfl⟩))).2) each)
  | .map plain mixed each =>
    .map ((agree.unwrap? within).trans plain) ((agree _ within.1 within.2).1 ▸ mixed)
      ((agree _ within.1 within.2).1 ▸
        UnfoldsPairs.agree agree (agree _ within.1 within.2).2.2 each)

theorem UnfoldsEach.agree (agree : s.Agree t low high) {values : List Value}
    {items : List HostValue} (within : ∀ v ∈ values, Within low high v) :
    s.UnfoldsEach values items → t.UnfoldsEach values items
  | .nil => .nil
  | .cons first others =>
    .cons (Unfolds.agree agree (within _ List.mem_cons_self) first)
      (UnfoldsEach.agree agree (fun v inside => within v (.tail _ inside)) others)

theorem UnfoldsPairs.agree (agree : s.Agree t low high) {pairs : List (Value × Value)}
    {found : List (HostValue × HostValue)}
    (within : ∀ pair ∈ pairs, pair.1.isScalar ∧ Within low high pair.2) :
    s.UnfoldsPairs pairs found → t.UnfoldsPairs pairs found
  | .nil => .nil
  | .cons key shown value others =>
    have ⟨scalar, inside⟩ := within _ List.mem_cons_self
    .cons (Unfolds.agree agree (.of_isScalar scalar) key)
      ((key.text_of_isScalar scalar _ _).trans shown) (Unfolds.agree agree inside value)
      (UnfoldsPairs.agree agree (fun pair inside => within pair (.tail _ inside)) others)

end

/-- A value keeps what it mirrors while its region is left alone. -/
theorem Mirrors.agree (mirrors : s.Mirrors v h) (agree : s.Agree t low high)
    (within : Within low high v) : t.Mirrors v h where
  unfolds := by
    obtain ⟨found, unfolds, same⟩ := mirrors.unfolds
    exact ⟨found, unfolds.agree agree within, same⟩
  shallow depth := (agree.shallow within).trans (mirrors.shallow depth)

end Regions

section Atoms

theorem Mirrors.of_ne_table (noTable : ∀ id, v ≠ .table id) (unfolds : s.Unfolds v h)
    (flat : h.height = 0) : s.Mirrors v h where
  unfolds := ⟨h, unfolds, .refl h⟩
  shallow depth := by
    rw [flat]
    exact iff_of_true (Crossing.shallow_of_ne_table noTable) (Nat.zero_le depth)

theorem Mirrors.proxy {id : TableId} (stands : s.unwrap? id = some h) (flat : h.height = 0) :
    s.Mirrors (.table id) h where
  unfolds := ⟨h, .proxy stands, .refl h⟩
  shallow depth := by
    refine iff_of_true (fun chain isChain => ?_) (by omega)
    have plain := isChain.head_plain
    rw [Plain, stands] at plain
    cases plain

end Atoms

section Tables

open HostValue Crossing

/-- A final key that is a scalar has a text. -/
theorem unfolds_key {k : Value} (scalar : k.isScalar) (final : k.asKey = k) (present : k ≠ .nil) :
    ∃ hk, s.Unfolds k hk ∧ s.objects.text hk = some k.keyText := by
  cases k with
  | nil => exact absurd rfl present
  | bool b => exact ⟨_, .bool b, rfl⟩
  | int i => exact ⟨_, .int i, rfl⟩
  | float x =>
    cases fractional : x.toInt64? with
    | none => exact ⟨_, .float fractional, rfl⟩
    | some i => simp [Value.asKey, fractional] at final
  | str bytes => exact ⟨_, .str bytes, rfl⟩
  | _ => cases scalar

/-- A key, a normal form, and the script value that mirrors it. -/
abbrev Row := Value × HostValue × Value

/-- Rows that the entries of a table are made of. -/
def Kept (s : Machine) (rows : List Row) : Prop :=
  ∀ row ∈ rows, row.1.isScalar ∧ row.1.asKey = row.1 ∧ row.1 ≠ .nil ∧ s.Mirrors row.2.2 row.2.1

theorem Kept.each {rows : List Row} (kept : s.Kept rows) :
    ∃ found, s.UnfoldsEach (rows.map (·.2.2)) found ∧
      List.Forall₂ Same found (rows.map (·.2.1)) := by
  induction rows with
  | nil => exact ⟨[], .nil, .nil⟩
  | cons row rest ih =>
    obtain ⟨⟨-, -, -, mirrors⟩, others⟩ := List.forall_mem_cons.1 kept
    obtain ⟨first, unfolds, same⟩ := mirrors.unfolds
    obtain ⟨found, unfoldsRest, sameRest⟩ := ih others
    exact ⟨first :: found, .cons unfolds unfoldsRest, .cons same sameRest⟩

/-- What the host makes of a pair whose key has a text. -/
def NamedPair (s : Machine) (pair : Value × Value) (found : HostValue × HostValue) : Prop :=
  ∃ hk text, s.Unfolds pair.1 hk ∧ s.objects.text hk = some text ∧ found.1 = .str text ∧
    s.Unfolds pair.2 found.2

theorem UnfoldsPairs.of_named {pairs : List (Value × Value)}
    {found : List (HostValue × HostValue)} (named : List.Forall₂ s.NamedPair pairs found) :
    s.UnfoldsPairs pairs found := by
  induction named with
  | nil => exact .nil
  | @cons pair out _ _ first _ ih =>
    obtain ⟨hk, text, key, shown, name, value⟩ := first
    obtain ⟨k, h⟩ := out
    obtain rfl : k = .str text := name
    exact .cons key shown value ih

theorem Kept.named {rows : List Row} (kept : s.Kept rows) :
    ∃ found, List.Forall₂ s.NamedPair (rows.map fun row => (row.1, row.2.2)) found ∧
      found.map (·.1) = rows.map (fun row => .str row.1.keyText) ∧
      List.Forall₂ Same (found.map (·.2)) (rows.map (·.2.1)) := by
  induction rows with
  | nil => exact ⟨[], .nil, rfl, .nil⟩
  | cons row rest ih =>
    obtain ⟨⟨scalar, final, present, mirrors⟩, others⟩ := List.forall_mem_cons.1 kept
    obtain ⟨hk, key, shown⟩ := unfolds_key scalar final present
    obtain ⟨first, unfolds, same⟩ := mirrors.unfolds
    obtain ⟨found, named, names, sames⟩ := ih others
    refine ⟨(.str row.1.keyText, first) :: found, .cons ⟨hk, _, key, shown, rfl, unfolds⟩ named,
      ?_, .cons same sames⟩
    simp [names]

variable {id : TableId} {rows : List Row}

/-- Sorting by a key commutes with a change of what has the key. -/
theorem mergeSort_map {α β : Type} (f : α → β) (key : β → Int) (l : List α) :
    (l.mergeSort fun a b => key (f a) ≤ key (f b)).map f =
      (l.map f).mergeSort fun a b => key a ≤ key b :=
  List.map_mergeSort fun _ _ _ _ => rfl

/-- Entries under integers unfold to a list in the order of these. -/
theorem Kept.unfolds_list (kept : s.Kept rows) (plain : s.Plain id)
    (pairs : (s.pairsOf id).Perm (rows.map fun row => (row.1, row.2.2)))
    (integers : ∀ row ∈ rows, row.1.isInt) :
    ∃ found, s.Unfolds (.table id) found ∧
      found.Same (.list ((rows.mergeSort fun a b => a.1.position ≤ b.1.position).map (·.2.1))) := by
  obtain ⟨indexed, same⟩ | ⟨pair, inside, other⟩ :=
    integers_or_other (rows.map fun row => (row.1, row.2.2))
  swap
  · obtain ⟨row, among, rfl⟩ := List.mem_map.1 inside
    obtain ⟨i, integer⟩ := Value.isInt_iff.1 (integers row among)
    exact absurd integer (other i)
  rw [same] at pairs
  have distinct : (indexed.map (·.1)).Nodup := by
    have keys := (s.tables[id.index]?.getD default).live_keys_nodup
    change ((s.pairsOf id).map (·.1)).Nodup at keys
    rw [(pairs.map (·.1)).nodup_iff, List.map_map] at keys
    exact List.Nodup.of_map Value.int (by rwa [List.map_map])
  have values : (indexed.mergeSort fun a b => a.1.toInt ≤ b.1.toInt).map (·.2) =
      (rows.mergeSort fun a b => a.1.position ≤ b.1.position).map (·.2.2) := by
    have sorted : (indexed.mergeSort fun a b => a.1.toInt ≤ b.1.toInt).map
          (fun entry => (Value.int entry.1, entry.2)) =
        (rows.mergeSort fun a b => a.1.position ≤ b.1.position).map
          fun row => (row.1, row.2.2) := by
      have first := mergeSort_map (fun entry : Int64 × Value => (Value.int entry.1, entry.2))
        (fun pair => pair.1.position) indexed
      have second := mergeSort_map (fun row : Row => (row.1, row.2.2))
        (fun pair => pair.1.position) rows
      rw [same] at second
      exact first.trans second.symm
    simpa [List.map_map, Function.comp_def] using congrArg (List.map (·.2)) sorted
  have sortedKept : s.Kept (rows.mergeSort fun a b => a.1.position ≤ b.1.position) :=
    fun row inside => kept row (List.mem_mergeSort.1 inside)
  obtain ⟨found, unfolds, sames⟩ := sortedKept.each
  refine ⟨.list found, .list plain ?_ (sorted_ascending distinct) (values ▸ unfolds), .list sames⟩
  exact ((indexed.mergeSort_perm _).map _).trans pairs.symm

/-- Entries of which some key is no integer unfold to a map under the texts of the keys. -/
theorem Kept.unfolds_map (kept : s.Kept rows) (plain : s.Plain id)
    (pairs : (s.pairsOf id).Perm (rows.map fun row => (row.1, row.2.2)))
    (mixed : ∃ row ∈ rows, ∀ i, row.1 ≠ .int i) :
    ∃ found, s.Unfolds (.table id) found ∧
      found.Same (.map (rows.map fun row => (.str row.1.keyText, row.2.1))) := by
  obtain ⟨found, named, names, sames⟩ := kept.named
  obtain ⟨ordered, named, order⟩ := List.perm_comp_forall₂ pairs named
  refine ⟨.map ordered, .map plain ?_ (.of_named named), .map order ?_ ?_⟩
  · obtain ⟨row, inside, other⟩ := mixed
    exact ⟨(row.1, row.2.2), pairs.mem_iff.2 (List.mem_map_of_mem inside), other⟩
  · rw [names, List.map_map]
    rfl
  · rw [List.map_map]
    exact sames

theorem shallow_table_iff {depth : Nat} (plain : s.Plain id) :
    s.Shallow (.table id) (depth + 1) ↔ ∀ v, s.Holds id v → s.Shallow v depth := by
  refine ⟨fun shallow v holds chain isChain => ?_, shallow_table⟩
  have long := shallow (id :: chain) (.cons plain holds isChain)
  rw [List.length_cons] at long
  omega

/-- A table whose pairs are given mirrors what they are gathered to. -/
theorem Kept.mirrors (kept : s.Kept rows) (plain : s.Plain id)
    (pairs : (s.pairsOf id).Perm (rows.map fun row => (row.1, row.2.2))) :
    s.Mirrors (.table id) (gathered (rows.map fun row => (row.1, row.2.1))) where
  unfolds := by
    rw [gathered]
    split
    · next integers =>
      have sorted := mergeSort_map (fun row : Row => (row.1, row.2.1))
        (fun entry => entry.1.position) rows
      rw [← sorted, List.map_map]
      refine kept.unfolds_list plain pairs fun row inside => ?_
      exact List.all_eq_true.1 integers _ (List.mem_map_of_mem inside)
    · next mixed =>
      rw [List.map_map]
      refine kept.unfolds_map plain pairs ?_
      simp only [List.all_map, List.all_eq_true, not_forall] at mixed
      obtain ⟨row, inside, other⟩ := mixed
      exact ⟨row, inside, fun i same => other (Value.isInt_iff.2 ⟨i, same⟩)⟩
  shallow depth := by
    cases depth with
    | zero =>
      refine iff_of_false (fun shallow => ?_) (Nat.not_le.2 (height_gathered_pos _))
      exact absurd (shallow [id] (.last plain)) (by simp)
    | succ depth =>
      rw [height_gathered_le, shallow_table_iff plain, List.forall_mem_map]
      constructor
      · intro inner row inside
        refine ((kept row inside).2.2.2.shallow depth).1 (inner _ ⟨(row.1, row.2.2), ?_, .inr rfl⟩)
        exact pairs.mem_iff.2 (List.mem_map_of_mem inside)
      · rintro flat v ⟨pair, inside, held⟩
        obtain ⟨row, among, rfl⟩ := List.mem_map.1 (pairs.mem_iff.1 inside)
        obtain ⟨scalar, -, -, mirrors⟩ := kept row among
        rcases held with rfl | rfl
        · refine shallow_of_ne_table fun id same => ?_
          rw [same] at scalar
          cases scalar
        · exact (mirrors.shallow depth).2 (flat row among)

end Tables

end Machine

end ScriptHost
