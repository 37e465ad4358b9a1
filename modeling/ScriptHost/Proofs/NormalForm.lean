import Mathlib.Algebra.Group.Nat.Defs
import Mathlib.Data.List.Forall2
import ScriptHost.Boundary.Crossing
import ScriptHost.Proofs.TableMap

/-!
# Normal forms of host values

What is left of a host value after it was a script value.  Integral numbers are integers; an absent
item of a list leaves no gap; the pairs of a map become the entries of a table, which the host takes
back as a list if all of their keys are integers.
-/

namespace ScriptHost

namespace Value

def isInt : Value → Bool
  | .int _ => true
  | _ => false

theorem isInt_iff {v : Value} : v.isInt ↔ ∃ i, v = .int i := by
  cases v <;> simp [isInt]

/-- The number of an integer. -/
def position : Value → Int
  | .int i => i.toInt
  | _ => 0

/-- The text of a scalar as a key of a map. -/
def keyText : Value → String
  | .bool b => toString b
  | .int i => toString i.toInt
  | .float x => x.hostText
  | .str bytes => Utf8.decode bytes
  | _ => ""

@[simp]
theorem asKey_ofBinary64 (x : Binary64) : (ofBinary64 x).asKey = ofBinary64 x := by
  cases integral : x.toInt64? <;> simp [ofBinary64, asKey, integral]

theorem ofBinary64_ne_nil (x : Binary64) : ofBinary64 x ≠ .nil := by
  cases integral : x.toInt64? <;> simp [ofBinary64, integral]

end Value

namespace HostValue

/-- The script key of a map key, given the texts of values. -/
def scriptKey (text : HostValue → Option String) : HostValue → Value
  | .bool b => .bool b
  | .int i => .int i
  | .float x => .ofBinary64 x
  | .str s => .text s
  | k => .text ((text k).getD "")

/-- The entries that stay: those with a value whose key does not come again. -/
def survivors {α : Type} (isNil : α → Bool) : List (Value × α) → List (Value × α)
  | [] => []
  | entry :: rest =>
    if isNil entry.2 || rest.any (·.1 = entry.1) then survivors isNil rest
    else entry :: survivors isNil rest

/-- Entries as a host value: in order if all keys are integers, else each under its text. -/
def gathered (entries : List (Value × HostValue)) : HostValue :=
  if entries.all (·.1.isInt) then
    .list ((entries.mergeSort fun a b => a.1.position ≤ b.1.position).map (·.2))
  else .map (entries.map fun entry => (.str entry.1.keyText, entry.2))

mutual

/-- What a value is after it was a script value, given the texts of values. -/
def normal (text : HostValue → Option String) : HostValue → HostValue
  | .float x =>
    match x.toInt64? with
    | some i => .int i
    | none => .float x
  | .list items => .list ((normalItems text items).filter (!·.isNil))
  | .map pairs => gathered (survivors isNil (normalPairs text pairs))
  | v => v

def normalItems (text : HostValue → Option String) : List HostValue → List HostValue
  | [] => []
  | item :: rest => normal text item :: normalItems text rest

def normalPairs (text : HostValue → Option String) :
    List (HostValue × HostValue) → List (Value × HostValue)
  | [] => []
  | (k, item) :: rest => (scriptKey text k, normal text item) :: normalPairs text rest

end

mutual

/-- How many lists and maps lie inside each other. -/
def height : HostValue → Nat
  | .list items => heights items + 1
  | .map pairs => pairHeights pairs + 1
  | _ => 0

def heights : List HostValue → Nat
  | [] => 0
  | item :: rest => max item.height (heights rest)

def pairHeights : List (HostValue × HostValue) → Nat
  | [] => 0
  | (k, item) :: rest => max (max k.height item.height) (pairHeights rest)

end

mutual

/-- Lists have fewer items than there are positive integers. -/
def Fits : HostValue → Prop
  | .list items => items.length < 2 ^ 63 ∧ FitsAll items
  | .map pairs => FitsPairs pairs
  | _ => True

def FitsAll : List HostValue → Prop
  | [] => True
  | item :: rest => item.Fits ∧ FitsAll rest

def FitsPairs : List (HostValue × HostValue) → Prop
  | [] => True
  | (_, item) :: rest => item.Fits ∧ FitsPairs rest

end

/-- Equal values, up to the order of the pairs in maps. -/
inductive Same : HostValue → HostValue → Prop where
  | refl (v : HostValue) : Same v v
  | list {a b : List HostValue} (each : List.Forall₂ Same a b) : Same (.list a) (.list b)
  | map {a b c : List (HostValue × HostValue)} (order : a.Perm b)
      (keys : b.map (·.1) = c.map (·.1)) (each : List.Forall₂ Same (b.map (·.2)) (c.map (·.2))) :
      Same (.map a) (.map c)

variable {α β : Type}

/-! ## Entries that stay -/

theorem mem_of_mem_survivors {isNil : α → Bool} {entries : List (Value × α)} {entry : Value × α}
    (inside : entry ∈ survivors isNil entries) : entry ∈ entries := by
  induction entries with
  | nil => cases inside
  | cons first rest ih =>
    rw [survivors] at inside
    split at inside
    · exact List.mem_cons_of_mem _ (ih inside)
    · exact List.mem_cons.2 ((List.mem_cons.1 inside).imp_right ih)

theorem survivors_map {isNil : α → Bool} {isNil' : β → Bool} (f : α → β)
    {entries : List (Value × α)} (agree : ∀ entry ∈ entries, isNil' (f entry.2) = isNil entry.2) :
    survivors isNil' (entries.map fun entry => (entry.1, f entry.2)) =
      (survivors isNil entries).map fun entry => (entry.1, f entry.2) := by
  induction entries with
  | nil => rfl
  | cons first rest ih =>
    have same := agree first List.mem_cons_self
    rw [List.map_cons, survivors, survivors, ih fun entry inside => agree entry (.tail _ inside)]
    simp only [same, List.any_map, Function.comp_def]
    split <;> simp

/-- Entries with different keys all stay if they have values. -/
theorem survivors_of_nodup {isNil : α → Bool} {entries : List (Value × α)}
    (distinct : (entries.map (·.1)).Nodup) :
    survivors isNil entries = entries.filter (!isNil ·.2) := by
  induction entries with
  | nil => rfl
  | cons first rest ih =>
    obtain ⟨new, distinct⟩ := List.nodup_cons.1 distinct
    have alone : rest.any (·.1 = first.1) = false := by
      rw [List.any_eq_false]
      intro entry inside same
      exact new (List.mem_map.2 ⟨entry, inside, by simpa using same⟩)
    rw [survivors, ih distinct, alone, Bool.or_false, List.filter_cons]
    cases isNil first.2 <;> rfl

theorem survivors_keys_nodup {isNil : α → Bool} (entries : List (Value × α)) :
    ((survivors isNil entries).map (·.1)).Nodup := by
  induction entries with
  | nil => exact List.nodup_nil
  | cons first rest ih =>
    rw [survivors]
    split
    · exact ih
    · next last =>
      refine List.nodup_cons.2 ⟨fun again => ?_, ih⟩
      obtain ⟨entry, inside, same⟩ := List.mem_map.1 again
      have found : rest.any (·.1 = first.1) :=
        List.any_eq_true.2 ⟨entry, mem_of_mem_survivors inside, by simpa using same⟩
      simp [found] at last

/-- Where a key comes again, it does not matter what it had before. -/
theorem assigned_again {entries : List (Value × Value)} {key : Value}
    (again : ∃ entry ∈ entries, key.asKey = entry.1.asKey) (before other : Value) :
    Table.assigned entries key before = Table.assigned entries key other := by
  induction entries generalizing before other with
  | nil => simp at again
  | cons first rest ih =>
    rw [Table.assigned, Table.assigned, List.foldl_cons, List.foldl_cons]
    by_cases here : key.asKey = first.1.asKey
    · rw [if_pos here, if_pos here]
    · rw [if_neg here, if_neg here]
      obtain ⟨entry, inside, same⟩ := again
      rcases List.mem_cons.1 inside with rfl | inside
      · exact absurd same here
      · exact ih ⟨entry, inside, same⟩ before other

/-- Entries that stay are what setting their keys one after the other leaves. -/
theorem mem_survivors {entries : List (Value × Value)}
    (final : ∀ entry ∈ entries, entry.1.asKey = entry.1) (key v : Value) :
    (key, v) ∈ survivors Value.isNil entries ↔
      key.asKey = key ∧ Table.assigned entries key .nil = v ∧ v ≠ .nil := by
  induction entries with
  | nil =>
    simp only [survivors, List.not_mem_nil, Table.assigned, List.foldl_nil, false_iff]
    rintro ⟨_, found, present⟩
    exact present found.symm
  | cons first rest ih =>
    have ih := ih fun entry inside => final entry (.tail _ inside)
    have firstFinal := final first List.mem_cons_self
    have next : Table.assigned (first :: rest) key .nil =
        Table.assigned rest key (if key.asKey = first.1.asKey then first.2 else .nil) := rfl
    rw [next, survivors]
    by_cases here : key.asKey = first.1.asKey
    · rw [if_pos here]
      by_cases again : ∃ entry ∈ rest, entry.1 = first.1
      · have later : rest.any (·.1 = first.1) := by simpa using again
        obtain ⟨entry, inside, same⟩ := again
        rw [later, Bool.or_true, if_pos rfl, ih,
          assigned_again ⟨entry, inside, by rw [here, same]⟩ first.2 .nil]
      · have alone : rest.any (·.1 = first.1) = false := by
          rw [List.any_eq_false]
          exact fun entry inside same => again ⟨entry, inside, by simpa using same⟩
        have absent : ∀ entry ∈ rest, key.asKey ≠ entry.1.asKey := by
          intro entry inside same
          refine again ⟨entry, inside, ?_⟩
          rw [← final entry (.tail _ inside), ← same, here, firstFinal]
        have gone : (key, v) ∉ survivors Value.isNil rest := fun inside =>
          absent _ (mem_of_mem_survivors inside) rfl
        rw [alone, Bool.or_false, Table.assigned_of_not_mem _ absent]
        cases present : first.2.isNil with
        | true =>
          have missing : first.2 = .nil := by
            cases value : first.2 <;> simp [value, Value.isNil] at present ⊢
          simp only [if_true, gone, false_iff]
          rintro ⟨_, found, there⟩
          exact there (found ▸ missing)
        | false =>
          simp only [Bool.false_eq_true, if_false, List.mem_cons, gone, or_false]
          constructor
          · rintro rfl
            exact ⟨firstFinal, rfl, by rintro missing; simp [missing, Value.isNil] at present⟩
          · rintro ⟨keyFinal, rfl, -⟩
            rw [← keyFinal, here, firstFinal]
    · rw [if_neg here]
      have other : (key, v) ≠ first := by
        rintro rfl
        exact here rfl
      split
      · exact ih
      · rw [List.mem_cons, ih]
        simp [other]

/-! ## Numbered items -/

/-- Values under the integers from one on. -/
def numbered : Nat → List α → List (Value × α)
  | _, [] => []
  | index, v :: rest => (.int (.ofNat index), v) :: numbered (index + 1) rest

theorem numbered_values (index : Nat) (values : List α) :
    (numbered index values).map (·.2) = values := by
  induction values generalizing index with
  | nil => rfl
  | cons first rest ih => rw [numbered, List.map_cons, ih]

theorem numbered_keys {index : Nat} {values : List α} {entry : Value × α}
    (inside : entry ∈ numbered index values) : ∃ i, entry.1 = .int i := by
  induction values generalizing index with
  | nil => cases inside
  | cons first rest ih =>
    rcases List.mem_cons.1 inside with rfl | inside
    · exact ⟨_, rfl⟩
    · exact ih inside

theorem mem_numbered {index : Nat} {values : List α} (few : index + values.length ≤ 2 ^ 63)
    {entry : Value × α} (inside : entry ∈ numbered index values) :
    entry.1.isInt ∧ index ≤ entry.1.position := by
  induction values generalizing index with
  | nil => cases inside
  | cons first rest ih =>
    rw [List.length_cons] at few
    rcases List.mem_cons.1 inside with rfl | inside
    · have value : (Int64.ofNat index).toInt = index := Int64.toInt_ofNat_of_lt (by omega)
      exact ⟨rfl, by simp [Value.position, value]⟩
    · obtain ⟨integer, later⟩ := ih (by omega) inside
      exact ⟨integer, by omega⟩

theorem numbered_ascending {index : Nat} {values : List α} (few : index + values.length ≤ 2 ^ 63) :
    (numbered index values).Pairwise fun a b => a.1.position < b.1.position := by
  induction values generalizing index with
  | nil => exact .nil
  | cons first rest ih =>
    rw [List.length_cons] at few
    refine .cons (fun entry inside => ?_) (ih (by omega))
    have value : (Int64.ofNat index).toInt = index := Int64.toInt_ofNat_of_lt (by omega)
    have later := (mem_numbered (by omega) inside).2
    simp only [Value.position, value] at later ⊢
    omega

theorem length_normalItems (text : HostValue → Option String) (items : List HostValue) :
    (normalItems text items).length = items.length := by
  induction items with
  | nil => rfl
  | cons first rest ih => rw [normalItems, List.length_cons, ih, List.length_cons]

/-- The items of a list, absent ones left out, in order. -/
theorem gathered_numbered {values : List HostValue} (few : values.length < 2 ^ 63) :
    gathered (survivors isNil (numbered 1 values)) = .list (values.filter (!·.isNil)) := by
  have ascending := @numbered_ascending _ 1 values (by omega)
  have distinct : ((numbered 1 values).map (·.1)).Nodup := by
    rw [List.Nodup, List.pairwise_map]
    exact ascending.imp fun {a b} before same => by simp [same] at before
  have integers : ((numbered 1 values).filter (!isNil ·.2)).all (·.1.isInt) := by
    rw [List.all_eq_true]
    exact fun entry inside => (mem_numbered (by omega) (List.mem_filter.1 inside).1).1
  have sorted : ((numbered 1 values).filter (!isNil ·.2)).Pairwise
      fun a b => decide (a.1.position ≤ b.1.position) = true :=
    (ascending.sublist List.filter_sublist).imp fun {a b} before => by
      simpa using Int.le_of_lt before
  rw [gathered, survivors_of_nodup distinct, if_pos integers, List.mergeSort_of_pairwise sorted]
  have items : values.filter (!·.isNil) =
      ((numbered 1 values).map (·.2)).filter (!·.isNil) := by rw [numbered_values]
  rw [items, List.filter_map]
  rfl

/-! ## Heights -/

theorem heights_le {items : List HostValue} {depth : Nat} :
    heights items ≤ depth ↔ ∀ item ∈ items, item.height ≤ depth := by
  induction items with
  | nil => simp [heights]
  | cons first rest ih => rw [heights, Nat.max_le, ih, List.forall_mem_cons]

theorem pairHeights_le {pairs : List (HostValue × HostValue)} {depth : Nat} :
    pairHeights pairs ≤ depth ↔
      ∀ pair ∈ pairs, pair.1.height ≤ depth ∧ pair.2.height ≤ depth := by
  induction pairs with
  | nil => simp [pairHeights]
  | cons first rest ih => rw [pairHeights, Nat.max_le, Nat.max_le, ih, List.forall_mem_cons]

/-- Gathering is one more level around the values of the entries. -/
theorem height_gathered_le {entries : List (Value × HostValue)} {depth : Nat} :
    (gathered entries).height ≤ depth + 1 ↔ ∀ entry ∈ entries, entry.2.height ≤ depth := by
  rw [gathered]
  split
  · rw [height, Nat.add_le_add_iff_right, heights_le, List.forall_mem_map]
    simp only [List.mem_mergeSort]
  · rw [height, Nat.add_le_add_iff_right, pairHeights_le, List.forall_mem_map]
    simp only [height, Nat.zero_le, true_and]

@[simp]
theorem isNil_gathered (entries : List (Value × HostValue)) : (gathered entries).isNil = false := by
  rw [gathered]
  split <;> rfl

theorem height_gathered_pos (entries : List (Value × HostValue)) :
    0 < (gathered entries).height := by
  rw [gathered]
  split <;> exact Nat.succ_pos _

end HostValue

end ScriptHost
