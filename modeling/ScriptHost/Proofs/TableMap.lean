import Mathlib.Algebra.Group.Nat.Defs
import Mathlib.Data.List.Nodup
import ScriptHost.Script.Table

/-!
# Tables as finite maps

Whatever the place of its pairs, a table is a map from keys to values: setting a key changes that
key only, and a traversal meets each key that has a value once, with its value.
-/

namespace ScriptHost

namespace Entries

theorem get?_empty (key : Value) : empty.get? key = none := by simp [get?, place?, empty]

/-- A new key comes after all others. -/
theorem toList_insert_new {e : Entries} {key : Value} (absent : e.get? key = none) (v : Value) :
    (e.insert key v).toList = e.toList ++ [(key, v)] := by
  unfold insert
  split
  · next place found =>
    obtain ⟨old, atPlace⟩ := (e.sound key place).1 found
    rw [(e.get?_eq_some_iff key old).2 ⟨place, atPlace⟩] at absent
    cases absent
  · exact Array.toList_push

end Entries

namespace Table

theorem itemIndex?_eq_some {length index : Nat} {key : Value}
    (short : length ≤ lengthLimit) :
    itemIndex? length key = some index ↔ index < length ∧ key = .int (.ofNat (index + 1)) := by
  have limit : lengthLimit = 2147483648 := rfl
  constructor
  · intro found
    cases key with
    | int i =>
      simp only [itemIndex?] at found
      split at found
      · next inside =>
        obtain rfl : i.toInt.toNat - 1 = index := by simpa using found
        refine ⟨by omega, ?_⟩
        have natural : i.toInt.toNat - 1 + 1 = i.toInt.toNat := by omega
        rw [natural, ← Int64.ofInt_eq_ofNat, Int.toNat_of_nonneg (by omega), Int64.ofInt_toInt]
      · simp at found
    | _ => simp [itemIndex?] at found
  · rintro ⟨inside, rfl⟩
    have value : (Int64.ofNat (index + 1)).toInt = (index + 1 : Nat) :=
      Int64.toInt_ofNat_of_lt (by omega)
    simp only [itemIndex?, value]
    rw [if_pos (by omega)]
    simp

/-- A position belongs to one key only. -/
theorem itemIndex?_inj {length index : Nat} {key other : Value}
    (found : itemIndex? length key = some index) (again : itemIndex? length other = some index) :
    key = other := by
  cases key with
  | int i =>
    cases other with
    | int j =>
      simp only [itemIndex?] at found again
      split at found
      · split at again
        · next here there =>
          simp only [Option.some.injEq] at found again
          have same : i.toInt = j.toInt := by omega
          rw [Int64.toInt_inj.1 same]
        · simp at again
      · simp at found
    | _ => simp [itemIndex?] at again
  | _ => simp [itemIndex?] at found

theorem itemIndex?_lt {length index : Nat} {key : Value}
    (found : itemIndex? length key = some index) : index < length := by
  cases key with
  | int i =>
    simp only [itemIndex?] at found
    split at found
    · simp only [Option.some.injEq] at found
      omega
    · simp at found
  | _ => simp [itemIndex?] at found

theorem get_putItem {t : Table} {key : Value} {index : Nat}
    (found : itemIndex? t.items.size key.asKey = some index) (v other : Value) :
    (t.putItem index v).get other = if other.asKey = key.asKey then v else t.get other := by
  simp only [get, putItem, Array.size_setIfInBounds]
  by_cases same : other.asKey = key.asKey
  · simp [same, found, itemIndex?_lt found]
  · rw [if_neg same]
    cases there : itemIndex? t.items.size other.asKey with
    | none => rfl
    | some place =>
      have apart : index ≠ place := fun equal => same (itemIndex?_inj there (equal ▸ found))
      simp [apart]

theorem get_putEntry {t : Table} {key : Value} (beside : itemIndex? t.items.size key.asKey = none)
    (v other : Value) :
    (t.putEntry key v beside).get other = if other.asKey = key.asKey then v else t.get other := by
  simp only [get, putEntry, Entries.get?_insert]
  by_cases same : other.asKey = key.asKey
  · simp [same, beside]
  · rw [if_neg same]
    simp [Ne.symm same]

theorem get_put (t : Table) (key v other : Value) :
    (t.put key v).get other = if other.asKey = key.asKey then v else t.get other := by
  unfold put
  split
  · next found => exact get_putItem found v other
  · next beside => exact get_putEntry beside v other

@[simp]
theorem get_bare (length room : Nat) (metatable : Option TableId) (key : Value) :
    (bare length room metatable).get key = .nil := by
  simp only [get, bare]
  cases itemIndex? _ key.asKey with
  | none => simp [Entries.get?, Entries.place?, Entries.empty]
  | some index => by_cases inside : index < min length lengthLimit <;> simp [inside]

/-- What a key has after pairs were put, given what it had before: the last pair with it counts. -/
def assigned (pairs : List (Value × Value)) (key before : Value) : Value :=
  pairs.foldl (fun v pair => if key.asKey = pair.1.asKey then pair.2 else v) before

theorem get_foldl_put (pairs : List (Value × Value)) (t : Table) (key : Value) :
    (pairs.foldl (fun t (key, v) => t.put key v) t).get key = assigned pairs key (t.get key) := by
  induction pairs generalizing t with
  | nil => rfl
  | cons pair rest ih =>
    rw [List.foldl_cons, ih, get_put]
    rfl

theorem get_ofPairs (length room : Nat) (metatable : Option TableId)
    (pairs : List (Value × Value)) (key : Value) :
    (ofPairs length room metatable pairs).get key = assigned pairs key .nil := by
  rw [ofPairs, get_foldl_put, get_bare]

/-- Where keys are distinct, a key has the value of its pair. -/
theorem assigned_of_mem {pairs : List (Value × Value)} {key v : Value} (before : Value)
    (distinct : (pairs.map fun pair => pair.1.asKey).Nodup) (isMember : (key, v) ∈ pairs) :
    assigned pairs key before = v := by
  induction pairs generalizing before with
  | nil => simp at isMember
  | cons pair rest ih =>
    rw [List.map_cons, List.nodup_cons] at distinct
    rcases List.mem_cons.1 isMember with rfl | later
    · have absent : ∀ pair ∈ rest, key.asKey ≠ pair.1.asKey := fun pair inside same =>
        distinct.1 (List.mem_map.2 ⟨pair, inside, same.symm⟩)
      simp only [assigned, List.foldl_cons, if_true]
      clear ih isMember distinct
      induction rest with
      | nil => rfl
      | cons next rest ih =>
        rw [List.foldl_cons, if_neg (absent next List.mem_cons_self)]
        exact ih fun pair inside => absent pair (List.mem_cons_of_mem _ inside)
    · exact ih _ distinct.2 later

theorem assigned_of_not_mem {pairs : List (Value × Value)} {key : Value} (before : Value)
    (absent : ∀ pair ∈ pairs, key.asKey ≠ pair.1.asKey) : assigned pairs key before = before := by
  induction pairs generalizing before with
  | nil => rfl
  | cons pair rest ih =>
    rw [assigned, List.foldl_cons, if_neg (absent pair List.mem_cons_self)]
    exact ih before fun pair inside => absent pair (List.mem_cons_of_mem _ inside)

theorem mem_positioned {position : Nat} {values : List Value} {key v : Value} :
    (key, v) ∈ positioned position values ↔
      ∃ index, values[index]? = some v ∧ key = .int (.ofNat (position + index)) := by
  induction values generalizing position with
  | nil => simp [positioned]
  | cons first rest ih =>
    rw [positioned, List.mem_cons, ih]
    constructor
    · rintro (same | ⟨index, inside, rfl⟩)
      · cases same
        exact ⟨0, rfl, rfl⟩
      · exact ⟨index + 1, inside, by rw [Nat.add_assoc, Nat.add_comm 1]⟩
    · rintro ⟨_ | index, inside, rfl⟩
      · obtain rfl : first = v := by simpa using inside
        exact .inl rfl
      · exact .inr ⟨index, inside, by rw [Nat.add_assoc, Nat.add_comm 1]⟩

theorem positioned_keys_nodup {position : Nat} {values : List Value}
    (small : position + values.length ≤ 2 ^ 63) :
    ((positioned position values).map (·.1)).Nodup := by
  induction values generalizing position with
  | nil => simp [positioned]
  | cons first rest ih =>
    rw [List.length_cons] at small
    rw [positioned, List.map_cons, List.nodup_cons]
    refine ⟨fun again => ?_, ih (by omega)⟩
    obtain ⟨⟨key, v⟩, inside, same⟩ := List.mem_map.1 again
    obtain ⟨index, found, rfl⟩ := mem_positioned.1 inside
    have within : index < rest.length := (List.getElem?_eq_some_iff.1 found).1
    have equal := Int64.toInt_inj.2 (Value.int.inj same)
    rw [Int64.toInt_ofNat_of_lt (by omega), Int64.toInt_ofNat_of_lt (by omega)] at equal
    omega

theorem entries_keys_nodup (e : Entries) : (e.toList.map (·.1)).Nodup := by
  rw [List.nodup_iff_getElem?_ne_getElem?]
  intro i j before inside same
  rw [List.length_map] at inside
  have first : e.toList[i]? = some e.toList[i] := List.getElem?_eq_getElem _
  have second : e.toList[j]? = some e.toList[j] := List.getElem?_eq_getElem _
  simp only [List.getElem?_map, first, second, Option.map_some, Option.some.injEq] at same
  simp only [Entries.toList, Array.getElem?_toList] at first second
  have atI := (e.sound e.toList[i].1 i).2 ⟨e.toList[i].2, first⟩
  have atJ := (e.sound e.toList[j].1 j).2 ⟨e.toList[j].2, second⟩
  rw [same, atJ, Option.some.injEq] at atI
  omega

/-- The pairs of a traversal are those of the map, each under the final form of its key. -/
theorem mem_ordered {t : Table} {key v : Value} (there : v ≠ .nil) :
    (key, v) ∈ t.ordered ↔ key.asKey = key ∧ t.get key = v := by
  obtain ⟨short, apart⟩ := t.sound
  rw [ordered, List.mem_append, mem_positioned, Entries.mem_toList_iff]
  constructor
  · rintro (⟨index, inside, rfl⟩ | found)
    · have within : index < t.items.size := (List.getElem?_eq_some_iff.1 inside).1
      have place : itemIndex? t.items.size (.int (.ofNat (1 + index))) = some index :=
        (itemIndex?_eq_some short).2 ⟨within, by rw [Nat.add_comm]⟩
      refine ⟨rfl, ?_⟩
      simp only [get, Value.asKey, place]
      simpa using congrArg (Option.getD · Value.nil) inside
    · obtain ⟨final, beside⟩ := apart key v found
      exact ⟨final, by simp [get, final, beside, found]⟩
  · rintro ⟨final, rfl⟩
    simp only [get, final] at there ⊢
    cases place : itemIndex? t.items.size key with
    | some index =>
      obtain ⟨within, rfl⟩ := (itemIndex?_eq_some short).1 place
      refine .inl ⟨index, ?_, by rw [Nat.add_comm]⟩
      simp [within]
    | none =>
      simp only [place] at there ⊢
      cases found : t.entries.get? key with
      | some v => exact .inr rfl
      | none => simp [found] at there

theorem ordered_keys_nodup (t : Table) : (t.ordered.map (·.1)).Nodup := by
  obtain ⟨short, apart⟩ := t.sound
  have limit : lengthLimit = 2147483648 := rfl
  rw [ordered, List.map_append]
  refine List.Nodup.append (positioned_keys_nodup (by simp; omega)) (entries_keys_nodup _) ?_
  intro key positionKey entryKey
  obtain ⟨⟨_, v⟩, inside, rfl⟩ := List.mem_map.1 positionKey
  obtain ⟨⟨_, w⟩, among, same⟩ := List.mem_map.1 entryKey
  obtain ⟨index, found, rfl⟩ := mem_positioned.1 inside
  have within : index < t.items.size := (List.getElem?_eq_some_iff.1 found).1
  have beside := (apart _ _ ((Entries.mem_toList_iff _ _ _).1 among)).2
  simp only at same
  rw [same, (itemIndex?_eq_some short).2 ⟨within, by rw [Nat.add_comm]⟩] at beside
  cases beside

/-- A traversal meets a key that has a value with its value, and no other key. -/
theorem mem_live {t : Table} {key v : Value} :
    (key, v) ∈ t.live ↔ key.asKey = key ∧ t.get key = v ∧ v ≠ .nil := by
  rw [live, List.mem_filter]
  by_cases there : v = .nil
  · simp [there, Value.isNil]
  · have present : (!v.isNil) = true := by cases v <;> simp_all [Value.isNil]
    rw [mem_ordered there]
    simp [present, there]

/-- A traversal meets no key twice. -/
theorem live_keys_nodup (t : Table) : (t.live.map (·.1)).Nodup :=
  t.ordered_keys_nodup.sublist (List.filter_sublist.map _)

theorem live_final_keys_nodup (t : Table) : (t.live.map fun pair => pair.1.asKey).Nodup := by
  have final : t.live.map (fun pair => pair.1.asKey) = t.live.map (·.1) :=
    List.map_congr_left fun pair inside => (mem_live.1 inside).1
  exact final ▸ t.live_keys_nodup

theorem get_empty (key : Value) : empty.get key = .nil := by
  have absent (key : Value) : empty.entries.get? key = none := by
    simp [empty, bare, Entries.get?, Entries.place?, Entries.empty]
  unfold get
  dsimp only
  split
  · simp [empty, bare]
  · rw [absent]
    rfl

theorem get_asKey (t : Table) (key : Value) : t.get key.asKey = t.get key := by simp [get]

theorem assigned_live (t : Table) (key : Value) : assigned t.live key .nil = t.get key := by
  by_cases there : t.get key = .nil
  · rw [there]
    refine assigned_of_not_mem _ fun pair inside same => ?_
    obtain ⟨final, found, present⟩ := mem_live.1 inside
    rw [← found, ← get_asKey, ← same, get_asKey] at present
    exact present there
  · have inside : (key.asKey, t.get key) ∈ t.live :=
      mem_live.2 ⟨key.asKey_asKey, t.get_asKey key, there⟩
    have final := assigned_of_mem .nil t.live_final_keys_nodup inside
    simpa [assigned] using final

theorem get_grow (t : Table) (key v other : Value) :
    (t.grow key v).get other = if other.asKey = key.asKey then v else t.get other := by
  have before : t.live.foldl _ .nil = t.get other := t.assigned_live other
  rw [grow, get_ofPairs, assigned, List.foldl_append, before]
  rfl

/-- Setting a key changes that key only. -/
theorem get_set (t : Table) (key v other : Value) :
    (t.set key v).get other = if other.asKey = key.asKey then v else t.get other := by
  unfold set
  split
  · next found => exact get_putItem found v other
  · next beside =>
    split
    · exact get_putEntry beside v other
    · next absent =>
      split
      · next missing =>
        -- nothing is set, and nothing was there before
        by_cases same : other.asKey = key.asKey
        · have unset : t.entries.get? key.asKey = none := by
            have noPlace : t.entries.place? key.asKey = none := by simpa using absent
            simp [Entries.get?, noPlace]
          rw [if_pos same, ← get_asKey, same, get, key.asKey_asKey, beside]
          cases v <;> simp_all [Value.isNil]
        · rw [if_neg same]
      · split
        · exact get_putEntry beside v other
        · rw [get_grow, key.asKey_asKey]

theorem get_foldl_set (pairs : List (Value × Value)) (t : Table) (key : Value) :
    (pairs.foldl (fun t pair => t.set pair.1 pair.2) t).get key =
      assigned pairs key (t.get key) := by
  induction pairs generalizing t with
  | nil => rfl
  | cons pair rest ih =>
    rw [List.foldl_cons, ih, get_set]
    rfl

/-- A key of a table that is cleared keeps its value or loses it. -/
theorem get_clear (t : Table) (gone : Value → Value → Bool) (key : Value) :
    (t.clear gone).get key = t.get key ∨ (t.clear gone).get key = .nil := by
  have each (pairs : List (Value × Value)) (u : Table)
      (before : u.get key = t.get key ∨ u.get key = .nil) :
      let cleared := pairs.foldl (fun t (other, v) =>
        if gone other v then t.set other .nil else t) u
      cleared.get key = t.get key ∨ cleared.get key = .nil := by
    induction pairs generalizing u with
    | nil => exact before
    | cons pair rest ih =>
      refine ih _ ?_
      dsimp only
      split
      · rw [get_set]
        split
        · exact .inr rfl
        · exact before
      · exact before
  exact each t.live t (.inl rfl)

/-- A traversal meets the pairs that were set in an empty table, if no key comes twice. -/
theorem mem_live_foldl_set {pairs : List (Value × Value)}
    (final : ∀ pair ∈ pairs, pair.1.asKey = pair.1) (distinct : (pairs.map (·.1)).Nodup)
    (present : ∀ pair ∈ pairs, pair.2 ≠ .nil) {key v : Value} :
    (key, v) ∈ (pairs.foldl (fun t pair => t.set pair.1 pair.2) empty).live ↔ (key, v) ∈ pairs := by
  have finalDistinct : (pairs.map fun pair => pair.1.asKey).Nodup := by
    rwa [List.map_congr_left final]
  rw [mem_live, get_foldl_set, get_empty]
  constructor
  · rintro ⟨isFinal, found, there⟩
    by_cases absent : ∀ pair ∈ pairs, key.asKey ≠ pair.1.asKey
    · rw [assigned_of_not_mem .nil absent] at found
      exact absurd found.symm there
    · simp only [not_forall, Classical.not_not] at absent
      obtain ⟨⟨other, w⟩, isPair, same⟩ := absent
      rw [isFinal, final _ isPair] at same
      dsimp only at same
      subst same
      rw [assigned_of_mem .nil finalDistinct isPair] at found
      exact found ▸ isPair
  · intro isPair
    exact ⟨final _ isPair, assigned_of_mem .nil finalDistinct isPair, present _ isPair⟩

theorem metatable_put (t : Table) (key v : Value) : (t.put key v).metatable = t.metatable := by
  unfold put
  split <;> rfl

theorem metatable_ofPairs (length room : Nat) (metatable : Option TableId)
    (pairs : List (Value × Value)) :
    (ofPairs length room metatable pairs).metatable = metatable := by
  have kept (t : Table) :
      (pairs.foldl (fun t pair => t.put pair.1 pair.2) t).metatable = t.metatable := by
    induction pairs generalizing t with
    | nil => rfl
    | cons pair rest ih => rw [List.foldl_cons, ih, metatable_put]
  exact kept (bare length room metatable)

@[simp]
theorem metatable_set (t : Table) (key v : Value) : (t.set key v).metatable = t.metatable := by
  unfold set
  split
  · rfl
  · split
    · rfl
    · split
      · rfl
      · split
        · rfl
        · exact metatable_ofPairs _ _ _ _

theorem metatable_foldl_set (pairs : List (Value × Value)) (t : Table) :
    (pairs.foldl (fun t pair => t.set pair.1 pair.2) t).metatable = t.metatable := by
  induction pairs generalizing t with
  | nil => rfl
  | cons pair rest ih => rw [List.foldl_cons, ih, metatable_set]

/-- What a traversal meets in a table with one key. -/
theorem live_of_single {t : Table} (key : Value) {v : Value} (there : v ≠ .nil)
    (only : ∀ other, t.get other = if other.asKey = key.asKey then v else .nil) :
    t.live = [(key.asKey, v)] := by
  have mem (pair : Value × Value) : pair ∈ t.live ↔ pair ∈ [(key.asKey, v)] := by
    obtain ⟨other, w⟩ := pair
    rw [mem_live, only, List.mem_singleton, Prod.mk.injEq]
    constructor
    · rintro ⟨final, found, present⟩
      split at found
      · next same => exact ⟨final ▸ same, found.symm⟩
      · exact absurd found.symm present
    · rintro ⟨rfl, rfl⟩
      exact ⟨key.asKey_asKey, by rw [if_pos key.asKey_asKey], there⟩
  exact List.perm_singleton.1
    ((List.perm_ext_iff_of_nodup t.live_keys_nodup.of_map (List.nodup_singleton _)).2 mem)

end Table

end ScriptHost
