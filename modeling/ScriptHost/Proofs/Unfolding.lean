import Mathlib.Data.List.Perm.Basic
import ScriptHost.Boundary.Crossing

/-!
# Tables on their way to the host

Tables hold each other, also in circles, and the host takes them apart from the outside in.  What it
makes of a value is the unfolding of the value: proxies become the host values that they stand for,
other tables become lists or maps of what they hold.  The conversion follows chains of tables, so
its outcome is read off the chains that start at the value.
-/

namespace ScriptHost

namespace Value

/-- Whether the host sees no more of a value than its type and its address. -/
def isBare : Value → Bool
  | .function _ | .thread _ | .userdata _ | .pointer | .fault _ => true
  | _ => false

end Value

namespace Machine

/-- A table that is no proxy, so that the host looks into it. -/
def Plain (s : Machine) (id : TableId) : Prop := s.unwrap? id = none

/-- The keys of a table with their values, as a traversal meets them. -/
def pairsOf (s : Machine) (id : TableId) : List (Value × Value) :=
  (s.tables[id.index]?.getD default).live

/-- A value or a key of a table. -/
def Holds (s : Machine) (id : TableId) (v : Value) : Prop :=
  ∃ pair ∈ s.pairsOf id, v = pair.1 ∨ v = pair.2

/-- Plain tables from a value on, each of which holds the next one. -/
inductive Chain (s : Machine) : Value → List TableId → Prop where
  | last {id : TableId} (plain : s.Plain id) : Chain s (.table id) [id]
  | cons {id : TableId} {v : Value} {rest : List TableId} (plain : s.Plain id)
      (holds : s.Holds id v) (chain : Chain s v rest) : Chain s (.table id) (id :: rest)

/-- A table on some chain from a value on. -/
def Reaches (s : Machine) (v : Value) (id : TableId) : Prop :=
  ∃ chain, s.Chain v chain ∧ id ∈ chain

/-- A table on a chain from itself. -/
def Circular (s : Machine) (id : TableId) : Prop :=
  ∃ chain, s.Chain (.table id) (id :: chain) ∧ id ∈ chain

mutual

/-- What a value is for the host, tables taken apart as far as they go. -/
inductive Unfolds (s : Machine) : Value → HostValue → Prop where
  | nil : Unfolds s .nil .nil
  | bool (b : Bool) : Unfolds s (.bool b) (.bool b)
  | int (i : Int64) : Unfolds s (.int i) (.int i)
  | integral {x : Binary64} {i : Int64} (equal : x.toInt64? = some i) :
      Unfolds s (.float x) (.int i)
  | float {x : Binary64} (fractional : x.toInt64? = none) : Unfolds s (.float x) (.float x)
  | str (bytes : ByteArray) : Unfolds s (.str bytes) (.str (Utf8.decode bytes))
  | bare {v : Value} (isBare : v.isBare) :
      Unfolds s v (.str (v.hostType ++ ": " ++ v.addressText))
  | proxy {id : TableId} {h : HostValue} (stands : s.unwrap? id = some h) :
      Unfolds s (.table id) h
  /-- All keys are integers: the values in ascending order of their keys. -/
  | list {id : TableId} {indexed : List (Int64 × Value)} {items : List HostValue}
      (plain : s.Plain id)
      (pairs : (indexed.map fun entry => (Value.int entry.1, entry.2)).Perm (s.pairsOf id))
      (ascending : indexed.Pairwise fun a b => a.1.toInt < b.1.toInt)
      (each : UnfoldsEach s (indexed.map (·.2)) items) : Unfolds s (.table id) (.list items)
  /-- Some key is no integer: each value under the text of its key. -/
  | map {id : TableId} {pairs : List (HostValue × HostValue)} (plain : s.Plain id)
      (mixed : ∃ pair ∈ s.pairsOf id, ∀ i, pair.1 ≠ .int i)
      (each : UnfoldsPairs s (s.pairsOf id) pairs) : Unfolds s (.table id) (.map pairs)

inductive UnfoldsEach (s : Machine) : List Value → List HostValue → Prop where
  | nil : UnfoldsEach s [] []
  | cons {v : Value} {h : HostValue} {rest : List Value} {items : List HostValue}
      (first : Unfolds s v h) (others : UnfoldsEach s rest items) :
      UnfoldsEach s (v :: rest) (h :: items)

inductive UnfoldsPairs (s : Machine) : List (Value × Value) → List (HostValue × HostValue) → Prop
    where
  | nil : UnfoldsPairs s [] []
  | cons {k v : Value} {hk h : HostValue} {text : String} {rest : List (Value × Value)}
      {pairs : List (HostValue × HostValue)} (key : Unfolds s k hk)
      (shown : s.objects.text hk = some text) (value : Unfolds s v h)
      (others : UnfoldsPairs s rest pairs) :
      UnfoldsPairs s ((k, v) :: rest) ((.str text, h) :: pairs)

end

/-- A caught panic that would go on if the host met the value. -/
def Raises (s : Machine) (v : Value) (text : String) : Prop :=
  ∃ index, v = .fault index ∧ s.faults[index]? = some (.panic (some text))

/-- A table that would make a panic go on holds one. -/
def Alarming (s : Machine) (id : TableId) (text : String) : Prop :=
  ∃ v, s.Holds id v ∧ s.Raises v text

/-- A table that has a key whose text for the host never ends. -/
def Unnamed (s : Machine) (id : TableId) : Prop :=
  ∃ pair ∈ s.pairsOf id, ∃ h, s.Unfolds pair.1 h ∧ s.objects.text h = none

/-- No table on the way of the host makes a panic go on or has a key without a text. -/
def Calm (s : Machine) (v : Value) : Prop :=
  ∀ id, s.Reaches v id → (∀ text, ¬ s.Alarming id text) ∧ ¬ s.Unnamed id

/-! ## Chains -/

section Chains

variable {s : Machine} {v w : Value} {id : TableId} {chain : List TableId}

theorem Chain.eq_table (h : s.Chain v (id :: chain)) : v = .table id := by
  cases h <;> rfl

/-- The rest of a chain starts at a value that its first table holds. -/
theorem Chain.inner (h : s.Chain v (id :: chain)) (more : chain ≠ []) :
    s.Plain id ∧ ∃ w, s.Holds id w ∧ s.Chain w chain := by
  cases h with
  | last => exact absurd rfl more
  | cons plain holds chain => exact ⟨plain, _, holds, chain⟩

theorem Chain.plain (h : s.Chain v chain) : ∀ id ∈ chain, s.Plain id := by
  induction h with
  | last plain => simpa using plain
  | cons plain holds chain ih => simpa using ⟨plain, ih⟩

theorem Chain.head_plain (h : s.Chain (.table id) chain) : s.Plain id := by
  cases h with
  | last plain => exact plain
  | cons plain => exact plain

theorem Plain.reaches (plain : s.Plain id) : s.Reaches (.table id) id :=
  ⟨[id], .last plain, List.mem_singleton_self id⟩

/-- What a held value reaches, its table reaches. -/
theorem Reaches.outward {outer : TableId} (plain : s.Plain outer) (holds : s.Holds outer v)
    (reaches : s.Reaches v id) : s.Reaches (.table outer) id := by
  obtain ⟨chain, h, inside⟩ := reaches
  exact ⟨outer :: chain, .cons plain holds h, List.mem_cons_of_mem _ inside⟩

/-- A chain may be followed by any chain from its last table on. -/
theorem Chain.append {before rest : List TableId} (h : s.Chain v (before ++ [id]))
    (onward : s.Chain (.table id) (id :: rest)) : s.Chain v (before ++ id :: rest) := by
  induction before generalizing v with
  | nil => exact h.eq_table ▸ onward
  | cons first before ih =>
    obtain ⟨plain, w, holds, chain⟩ := h.inner (by simp)
    exact h.eq_table ▸ .cons plain holds (ih chain)

/-- The part of a chain up to one of its tables is a chain. -/
theorem Chain.upTo {before rest : List TableId} (h : s.Chain v (before ++ id :: rest)) :
    s.Chain v (before ++ [id]) := by
  induction before generalizing v with
  | nil =>
    have plain := h.plain id (by simp)
    exact h.eq_table ▸ .last plain
  | cons first before ih =>
    obtain ⟨plain, w, holds, chain⟩ := h.inner (by simp)
    exact h.eq_table ▸ .cons plain holds (ih chain)

/-- From a table on a chain from itself, chains are as long as one likes. -/
theorem Circular.chains_unbounded (circular : s.Circular id) (n : Nat) :
    ∃ rest, s.Chain (.table id) (id :: rest) ∧ n ≤ rest.length := by
  obtain ⟨chain, loop, inside⟩ := circular
  obtain ⟨before, after, rfl⟩ := List.append_of_mem inside
  have back : s.Chain (.table id) (id :: before ++ [id]) := loop.upTo
  induction n with
  | zero => exact ⟨_, loop, Nat.zero_le _⟩
  | succ n ih =>
    obtain ⟨rest, onward, long⟩ := ih
    refine ⟨before ++ id :: rest, back.append onward, ?_⟩
    rw [List.length_append, List.length_cons]
    omega

theorem Reaches.chains_unbounded (reaches : s.Reaches v id) (circular : s.Circular id) (n : Nat) :
    ∃ chain, s.Chain v chain ∧ n ≤ chain.length := by
  obtain ⟨chain, h, inside⟩ := reaches
  obtain ⟨before, after, rfl⟩ := List.append_of_mem inside
  obtain ⟨rest, onward, long⟩ := circular.chains_unbounded n
  refine ⟨before ++ id :: rest, h.upTo.append onward, ?_⟩
  rw [List.length_append, List.length_cons]
  omega

end Chains

/-! ## One unfolding at most -/

section Uniqueness

variable {s : Machine}

/-- Ascending entries are determined by what they are. -/
theorem ascending_unique {a b : List (Int64 × Value)} {pairs : List (Value × Value)}
    (first : (a.map fun entry => (Value.int entry.1, entry.2)).Perm pairs)
    (second : (b.map fun entry => (Value.int entry.1, entry.2)).Perm pairs)
    (ascendingA : a.Pairwise fun x y => x.1.toInt < y.1.toInt)
    (ascendingB : b.Pairwise fun x y => x.1.toInt < y.1.toInt) : a = b := by
  have apart : Function.Injective fun entry : Int64 × Value => (Value.int entry.1, entry.2) := by
    rintro ⟨i, v⟩ ⟨j, w⟩ same
    simpa using same
  have perm : a.Perm b := (List.map_perm_map_iff apart).1 (first.trans second.symm)
  refine perm.eq_of_pairwise (fun x y _ _ before after => ?_) ascendingA ascendingB
  omega

theorem Unfolds.list_unique {id : TableId} {items : List HostValue} {h : HostValue}
    {indexed : List (Int64 × Value)} (plain : s.Plain id)
    (pairs : (indexed.map fun entry => (Value.int entry.1, entry.2)).Perm (s.pairsOf id))
    (ascending : indexed.Pairwise fun a b => a.1.toInt < b.1.toInt)
    (each : ∀ hs, s.UnfoldsEach (indexed.map (·.2)) hs → items = hs)
    (second : s.Unfolds (.table id) h) : .list items = h := by
  cases second with
  | bare isBare => cases isBare
  | proxy stands => rw [Plain, stands] at plain; cases plain
  | list _ pairs' ascending' each' =>
    rw [each _ (ascending_unique pairs pairs' ascending ascending' ▸ each')]
  | map _ mixed =>
    obtain ⟨pair, inside, other⟩ := mixed
    obtain ⟨entry, -, rfl⟩ := List.mem_map.1 (pairs.mem_iff.2 inside)
    exact absurd rfl (other entry.1)

theorem Unfolds.map_unique {id : TableId} {pairs : List (HostValue × HostValue)} {h : HostValue}
    (plain : s.Plain id) (mixed : ∃ pair ∈ s.pairsOf id, ∀ i, pair.1 ≠ .int i)
    (each : ∀ hs, s.UnfoldsPairs (s.pairsOf id) hs → pairs = hs)
    (second : s.Unfolds (.table id) h) : .map pairs = h := by
  cases second with
  | bare isBare => cases isBare
  | proxy stands => rw [Plain, stands] at plain; cases plain
  | list _ pairs =>
    obtain ⟨pair, inside, other⟩ := mixed
    obtain ⟨entry, -, rfl⟩ := List.mem_map.1 (pairs.mem_iff.2 inside)
    exact absurd rfl (other entry.1)
  | map _ _ each' => rw [each _ each']

mutual

/-- A value has one unfolding. -/
theorem Unfolds.unique {v : Value} {h h' : HostValue} :
    s.Unfolds v h → s.Unfolds v h' → h = h'
  | .nil, second | .bool _, second | .int _, second | .str _, second => by
    cases second with
    | bare isBare => cases isBare
    | _ => rfl
  | .integral equal, second => by
    cases second with
    | bare isBare => cases isBare
    | integral again => rw [equal, Option.some.injEq] at again; rw [again]
    | float fractional => rw [equal] at fractional; cases fractional
  | .float fractional, second => by
    cases second with
    | bare isBare => cases isBare
    | integral equal => rw [equal] at fractional; cases fractional
    | float => rfl
  | .bare isBare, second => by
    cases second with
    | bare => rfl
    | _ => cases isBare
  | .proxy stands, second => by
    cases second with
    | bare isBare => cases isBare
    | proxy again => exact Option.some.inj (stands.symm.trans again)
    | list plain => rw [Plain, stands] at plain; cases plain
    | map plain => rw [Plain, stands] at plain; cases plain
  | .list plain pairs ascending each, second =>
    Unfolds.list_unique plain pairs ascending (fun _ => UnfoldsEach.unique each) second
  | .map plain mixed each, second =>
    Unfolds.map_unique plain mixed (fun _ => UnfoldsPairs.unique each) second

theorem UnfoldsEach.unique {values : List Value} {hs hs' : List HostValue} :
    s.UnfoldsEach values hs → s.UnfoldsEach values hs' → hs = hs'
  | .nil, .nil => rfl
  | .cons value others, .cons value' others' => by
    rw [Unfolds.unique value value', UnfoldsEach.unique others others']

theorem UnfoldsPairs.unique {pairs : List (Value × Value)} {hs hs' : List (HostValue × HostValue)} :
    s.UnfoldsPairs pairs hs → s.UnfoldsPairs pairs hs' → hs = hs'
  | .nil, .nil => rfl
  | .cons key shown value others, .cons key' shown' value' others' => by
    have sameKey := Unfolds.unique key key'
    have sameText := Option.some.inj (shown.symm.trans (sameKey ▸ shown'))
    rw [sameText, Unfolds.unique value value', UnfoldsPairs.unique others others']

end

end Uniqueness

end Machine

end ScriptHost
