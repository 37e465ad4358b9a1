import Mathlib.Algebra.Group.Nat.Defs
import Mathlib.Data.List.Perm.Basic
import ScriptHost.Proofs.IntegralNumbers
import ScriptHost.Proofs.RoundTrip

/-!
# Typed values

A value of a type made of scalars, objects, lists and maps with text keys survives the way to the
scripts and back.  What is lost on the way is found again by the type: numbers that became integers
widen, an empty list is taken for an empty map, and the entries of a map are put in order.
-/

namespace ScriptHost

namespace Storage

/-- The stored values of a type made of scalars, objects, lists and maps. -/
inductive Holds : Storage → Datum → Prop where
  | bool (b : Bool) : Holds .bool (.bool b)
  | int64 (i : Int64) : Holds .int64 (.int i)
  | int32 {i : Int64}
      (range : Int32.minValue.toInt ≤ i.toInt ∧ i.toInt ≤ Int32.maxValue.toInt) :
      Holds .int32 (.int i)
  | size {n : UInt64} (small : n.toNat < 2 ^ 63) : Holds .size (.size n)
  | float (x : Binary64) : Holds .float (.float x)
  | single {x : Binary64} (exact : x.toSingle = x) : Holds .single (.float x)
  | text (s : String) : Holds .text (.text s)
  | object (o : ObjectId) : Holds .object (.object o)
  | list {item : Storage} {items : List Datum} (few : items.length < 2 ^ 63)
      (each : ∀ d ∈ items, Holds item d) : Holds (.list item) (.list items)
  | map {item : Storage} {entries : List (String × Datum)}
      (ascending : entries.Pairwise fun a b => a.1 < b.1)
      (each : ∀ entry ∈ entries, Holds item entry.2) : Holds (.map item) (.map entries)

/-- The stored values of such a type, or of one that may be absent. -/
inductive Carries : Storage → Datum → Prop where
  | plain {storage : Storage} {d : Datum} (holds : storage.Holds d) : Carries storage d
  | absent (content : Storage) : Carries (.option content) .absent
  | present {content : Storage} {d : Datum} (holds : content.Holds d) :
      Carries (.option content) (.present d)

/-- How many lists and maps lie inside each other. -/
def nesting : Storage → Nat
  | .list item | .map item => item.nesting + 1
  | .option content => content.nesting
  | _ => 0

end Storage

namespace Datum

/-- Equal stored values, up to what a comparison of numbers cannot tell apart. -/
inductive Alike : Datum → Datum → Prop where
  | refl (d : Datum) : Alike d d
  | float {x y : Binary64} (alike : x.Alike y) : Alike (.float x) (.float y)
  | present {a b : Datum} (alike : Alike a b) : Alike (.present a) (.present b)
  | list {a b : List Datum} (each : List.Forall₂ Alike a b) : Alike (.list a) (.list b)
  | map {a b : List (String × Datum)} (keys : a.map (·.1) = b.map (·.1))
      (each : List.Forall₂ Alike (a.map (·.2)) (b.map (·.2))) : Alike (.map a) (.map b)

mutual

/-- The host value that a stored value without records is read as. -/
def asHost : Datum → HostValue
  | .bool b => .bool b
  | .int i => .int i
  | .size n => .int n.toInt64
  | .float x => .float x
  | .text s => .str s
  | .object o => .ptr (some o)
  | .any v => v
  | .record _ _ | .absent => .nil
  | .present content => content.asHost
  | .list items => .list (asHosts items)
  | .map entries => .map (asPairs entries)

def asHosts : List Datum → List HostValue
  | [] => []
  | item :: rest => item.asHost :: asHosts rest

def asPairs : List (String × Datum) → List (HostValue × HostValue)
  | [] => []
  | (key, item) :: rest => (.str key, item.asHost) :: asPairs rest

end

theorem asHosts_eq_map (items : List Datum) : asHosts items = items.map asHost := by
  induction items with
  | nil => rfl
  | cons first rest ih => rw [asHosts, List.map_cons, ih]

theorem asPairs_eq_map (entries : List (String × Datum)) :
    asPairs entries = entries.map fun entry => (.str entry.1, entry.2.asHost) := by
  induction entries with
  | nil => rfl
  | cons first rest ih => rw [asPairs, List.map_cons, ih]

/-! ## Maps in order -/

section

variable {α : Type} {key : String} {item : α} {entries : List (String × α)}

theorem insertEntry_perm (new : key ∉ entries.map (·.1)) :
    (insertEntry key item entries).Perm ((key, item) :: entries) := by
  induction entries with
  | nil => exact .refl _
  | cons first rest ih =>
    rw [List.map_cons, List.mem_cons, not_or] at new
    rw [insertEntry, if_neg new.1]
    split
    · exact .refl _
    · exact ((ih new.2).cons first).trans (.swap _ _ _)

theorem insertEntry_ascending (new : key ∉ entries.map (·.1))
    (ascending : entries.Pairwise fun a b => a.1 < b.1) :
    (insertEntry key item entries).Pairwise fun a b => a.1 < b.1 := by
  induction entries with
  | nil => exact List.pairwise_singleton _ _
  | cons first rest ih =>
    rw [List.map_cons, List.mem_cons, not_or] at new
    obtain ⟨least, ascending⟩ := List.pairwise_cons.1 ascending
    rw [insertEntry, if_neg new.1]
    split
    · next before =>
      refine .cons (fun entry inside => ?_) (.cons least ascending)
      rcases List.mem_cons.1 inside with rfl | inside
      · exact before
      · exact String.lt_trans before (least entry inside)
    · next after =>
      refine .cons (fun entry inside => ?_) (ih new.2 ascending)
      rcases List.mem_cons.1 ((insertEntry_perm new.2).mem_iff.1 inside) with rfl | inside
      · exact Decidable.byContradiction fun before =>
          new.1 (String.le_antisymm before after)
      · exact least entry inside

theorem foldl_insertEntry {pairs entries : List (String × α)}
    (distinct : ((entries ++ pairs).map (·.1)).Nodup)
    (ascending : entries.Pairwise fun a b => a.1 < b.1) :
    (pairs.foldl (fun entries pair => insertEntry pair.1 pair.2 entries) entries).Perm
        (entries ++ pairs) ∧
      (pairs.foldl (fun entries pair => insertEntry pair.1 pair.2 entries) entries).Pairwise
        fun a b => a.1 < b.1 := by
  induction pairs generalizing entries with
  | nil => exact ⟨by rw [List.append_nil, List.foldl_nil], ascending⟩
  | cons first rest ih =>
    have new : first.1 ∉ entries.map (·.1) := by
      intro inside
      rw [List.map_append, List.nodup_append] at distinct
      exact distinct.2.2 _ inside _ List.mem_cons_self rfl
    have placed : (insertEntry first.1 first.2 entries ++ rest).Perm (entries ++ first :: rest) :=
      ((insertEntry_perm new).append_right rest).trans List.perm_middle.symm
    obtain ⟨perm, sorted⟩ := ih ((placed.map (·.1)).nodup_iff.2 distinct)
      (insertEntry_ascending new ascending)
    exact ⟨perm.trans placed, sorted⟩

/-- Putting pairs with different keys in order gives the one ascending list of them. -/
theorem ofSortedEntries_perm {pairs : List (String × α)}
    (ascending : entries.Pairwise fun a b => a.1 < b.1) (perm : pairs.Perm entries) :
    ofSortedEntries pairs = entries := by
  have distinct : (pairs.map (·.1)).Nodup := by
    rw [(perm.map (·.1)).nodup_iff, List.Nodup, List.pairwise_map]
    refine ascending.imp fun {a b} before same => ?_
    rw [same] at before
    exact String.lt_irrefl _ before
  obtain ⟨sorted, order⟩ := @foldl_insertEntry α pairs [] distinct .nil
  refine List.Perm.eq_of_pairwise (fun a b _ _ before after => ?_) order ascending
    (sorted.trans perm)
  exact absurd after (String.lt_asymm before)

end

end Datum

theorem Value.keyText_text (s : String) : (Value.text s).keyText = s := Utf8.decode_toByteArray s

/-! ## Lists of values -/

namespace Datum

theorem run_readAll {items : List Datum} {objects : Objects}
    (each : ∀ d ∈ items, d.read.run objects = (d.asHost, objects)) :
    (readAll items).run objects = (asHosts items, objects) := by
  induction items with
  | nil => rfl
  | cons first rest ih =>
    obtain ⟨here, later⟩ := List.forall_mem_cons.1 each
    rw [readAll, StateT.run_bind, here]
    change ((readAll rest >>= _).run objects) = _
    rw [StateT.run_bind, ih later]
    rfl

theorem run_readEntries {entries : List (String × Datum)} {objects : Objects}
    (each : ∀ entry ∈ entries, entry.2.read.run objects = (entry.2.asHost, objects)) :
    (readEntries entries).run objects = (asPairs entries, objects) := by
  induction entries with
  | nil => rfl
  | cons first rest ih =>
    obtain ⟨here, later⟩ := List.forall_mem_cons.1 each
    rw [readEntries, StateT.run_bind, here]
    change ((readEntries rest >>= _).run objects) = _
    rw [StateT.run_bind, ih later]
    rfl

end Datum

namespace HostValue

theorem fitsAll_iff {items : List HostValue} : FitsAll items ↔ ∀ item ∈ items, item.Fits := by
  induction items with
  | nil => simp [FitsAll]
  | cons first rest ih => rw [FitsAll, ih, List.forall_mem_cons]

theorem fitsPairs_iff {pairs : List (HostValue × HostValue)} :
    FitsPairs pairs ↔ ∀ pair ∈ pairs, pair.2.Fits := by
  induction pairs with
  | nil => simp [FitsPairs]
  | cons first rest ih => rw [FitsPairs, ih, List.forall_mem_cons]

theorem normalItems_eq_map (text : HostValue → Option String) (items : List HostValue) :
    normalItems text items = items.map (normal text) := by
  induction items with
  | nil => rfl
  | cons first rest ih => rw [normalItems, List.map_cons, ih]

theorem normalPairs_eq_map (text : HostValue → Option String)
    (pairs : List (HostValue × HostValue)) :
    normalPairs text pairs = pairs.map fun pair => (scriptKey text pair.1, normal text pair.2) := by
  induction pairs with
  | nil => rfl
  | cons first rest ih => rw [normalPairs, List.map_cons, ih]

end HostValue

/-! ## What the values of a type are read as -/

namespace Storage.Holds

open HostValue Crossing MachineM

variable {storage : Storage} {d : Datum} {text : HostValue → Option String}

/-- Reading makes no objects. -/
theorem run_read (holds : storage.Holds d) (objects : Objects) :
    d.read.run objects = (d.asHost, objects) := by
  induction holds with
  | list few each ih =>
    rw [Datum.read, StateT.run_bind, Datum.run_readAll ih]
    rfl
  | map ascending each ih =>
    rw [Datum.read, StateT.run_bind, Datum.run_readEntries ih]
    rfl
  | _ => rfl

theorem fits (holds : storage.Holds d) : d.asHost.Fits := by
  induction holds with
  | list few each ih =>
    rw [Datum.asHost, Fits, Datum.asHosts_eq_map, List.length_map, fitsAll_iff, List.forall_mem_map]
    exact ⟨few, ih⟩
  | map ascending each ih =>
    rw [Datum.asHost, Fits, Datum.asPairs_eq_map, fitsPairs_iff, List.forall_mem_map]
    exact ih
  | _ => exact trivial

/-! ## Crossing to the scripts -/

theorem runOn_putItems (object : ObjectId → CrossingM Value) (id : TableId) {items : List HostValue}
    (each : ∀ item ∈ items, ∀ s, ∃ w t, (value object item).runOn s = (.ok w, t)) (index : Nat)
    (s : Machine) : ∃ t, (putItems object id index items).runOn s = (.ok (), t) := by
  induction items generalizing index s with
  | nil => exact ⟨s, rfl⟩
  | cons first rest ih =>
    obtain ⟨here, later⟩ := List.forall_mem_cons.1 each
    obtain ⟨w, t, made⟩ := here s
    rw [putItems, runOn_bind_ok made, runOn_bind_ok (runOn_rawSet _ _ _ _)]
    exact ih later _ _

theorem runOn_putTexts (object : ObjectId → CrossingM Value) (id : TableId)
    {entries : List (String × Datum)}
    (each : ∀ entry ∈ entries, ∀ s, ∃ w t, (value object entry.2.asHost).runOn s = (.ok w, t))
    (s : Machine) :
    ∃ t, (putPairs object id (Datum.asPairs entries)).runOn s = (.ok (), t) := by
  induction entries generalizing s with
  | nil => exact ⟨s, rfl⟩
  | cons first rest ih =>
    obtain ⟨here, later⟩ := List.forall_mem_cons.1 each
    obtain ⟨w, t, made⟩ := here s
    have named : (key (.str first.1)).runOn s = (.ok (.text first.1), s) := rfl
    rw [Datum.asPairs, putPairs, runOn_bind_ok named, runOn_bind_ok made,
      runOn_bind_ok (runOn_rawSet _ _ _ _)]
    exact ih later _

/-- Nothing of a typed value is refused on its way to the scripts. -/
theorem runOn_value (holds : storage.Holds d) (object : ObjectId → CrossingM Value)
    (s : Machine) : ∃ w t, (value object d.asHost).runOn s = (.ok w, t) := by
  induction holds generalizing s with
  | @list item items few each ih =>
    have each : ∀ v ∈ Datum.asHosts items, ∀ s, ∃ w t, (value object v).runOn s = (.ok w, t) := by
      rw [Datum.asHosts_eq_map, List.forall_mem_map]
      exact ih
    rw [Datum.asHost, value, runOn_bind_ok (runOn_newTable _ s)]
    obtain ⟨t, filled⟩ := runOn_putItems object ⟨s.tables.size⟩ each 1
      { s with tables := s.tables.push (.ofSize (Datum.asHosts items).length) }
    exact ⟨_, t, runOn_bind_ok filled _⟩
  | @map item entries ascending each ih =>
    rw [Datum.asHost, value, runOn_bind_ok (runOn_newTable _ s)]
    obtain ⟨t, filled⟩ := runOn_putTexts object ⟨s.tables.size⟩ ih
      { s with tables := s.tables.push .empty }
    exact ⟨_, t, runOn_bind_ok filled _⟩
  | _ => exact ⟨_, _, rfl⟩

/-! ## Normal forms -/

/-- No typed value is missing after it crossed. -/
theorem isNil_normal (holds : storage.Holds d) : (normal text d.asHost).isNil = false := by
  cases holds with
  | float x =>
    rw [Datum.asHost, normal]
    cases x.toInt64? <;> rfl
  | @single x exact =>
    rw [Datum.asHost, normal]
    cases x.toInt64? <;> rfl
  | map ascending each =>
    rw [Datum.asHost, normal]
    exact isNil_gathered _
  | _ => rfl

theorem normal_list {item : Storage} {items : List Datum} (each : ∀ d ∈ items, item.Holds d) :
    normal text (.list (Datum.asHosts items)) =
      .list (items.map fun d => normal text d.asHost) := by
  have forms : normalItems text (Datum.asHosts items) =
      items.map fun d => normal text d.asHost := by
    rw [normalItems_eq_map, Datum.asHosts_eq_map, List.map_map]
    rfl
  rw [normal, forms, List.filter_eq_self.2]
  rw [List.forall_mem_map]
  intro d inside
  rw [(each d inside).isNil_normal]
  rfl

/-- The entries of a map keep their keys, but a map without any comes back as a list. -/
theorem normal_map {item : Storage} {entries : List (String × Datum)}
    (ascending : entries.Pairwise fun a b => a.1 < b.1)
    (each : ∀ entry ∈ entries, item.Holds entry.2) :
    normal text (.map (Datum.asPairs entries)) =
      if entries = [] then .list []
      else .map (entries.map fun entry => (.str entry.1, normal text entry.2.asHost)) := by
  have forms : normalPairs text (Datum.asPairs entries) =
      entries.map fun entry => (.text entry.1, normal text entry.2.asHost) := by
    rw [normalPairs_eq_map, Datum.asPairs_eq_map, List.map_map]
    rfl
  have distinct : ((normalPairs text (Datum.asPairs entries)).map (·.1)).Nodup := by
    rw [forms, List.map_map, List.Nodup, List.pairwise_map]
    refine ascending.imp fun {a b} before same => ?_
    have texts : (Value.text a.1).keyText = (Value.text b.1).keyText :=
      congrArg Value.keyText same
    rw [Value.keyText_text, Value.keyText_text] at texts
    rw [texts] at before
    exact String.lt_irrefl _ before
  have all : (normalPairs text (Datum.asPairs entries)).filter (!isNil ·.2) =
      entries.map fun entry => (.text entry.1, normal text entry.2.asHost) := by
    rw [forms, List.filter_eq_self.2]
    rw [List.forall_mem_map]
    intro entry inside
    rw [(each entry inside).isNil_normal]
    rfl
  rw [normal, survivors_of_nodup distinct, all]
  cases entries with
  | nil => simp [gathered]
  | cons first rest =>
    have named : ¬ (((first :: rest).map fun entry =>
        (Value.text entry.1, normal text entry.2.asHost)).all (·.1.isInt)) = true := by
      rw [List.map_cons, List.all_cons]
      exact Bool.false_ne_true
    rw [if_neg (List.cons_ne_nil _ _), gathered, if_neg named, List.map_map]
    refine congrArg HostValue.map (List.map_congr_left fun entry _ => ?_)
    simp only [Function.comp_apply, Value.keyText_text]

theorem height_le (holds : storage.Holds d) :
    (normal text d.asHost).height ≤ storage.nesting := by
  induction holds with
  | float x =>
    rw [Datum.asHost, normal]
    cases x.toInt64? <;> exact Nat.le_refl _
  | @single x exact =>
    rw [Datum.asHost, normal]
    cases x.toInt64? <;> exact Nat.le_refl _
  | list few each ih =>
    rw [Datum.asHost, normal_list each, height, nesting, Nat.add_le_add_iff_right, heights_le,
      List.forall_mem_map]
    exact ih
  | map ascending each ih =>
    rw [Datum.asHost, normal_map ascending each, nesting]
    split
    · exact Nat.le_add_left _ _
    · rw [height, Nat.add_le_add_iff_right, pairHeights_le, List.forall_mem_map]
      exact fun entry inside => ⟨Nat.zero_le _, ih entry inside⟩
  | _ => exact Nat.le_refl _

end Storage.Holds

/-! ## What is stored again -/

namespace HostM

variable {α β : Type}

/-- A computation with a result that leaves the objects as they are. -/
def Yields (m : HostM α) (a : α) : Prop := ∀ objects, m.run.run objects = (.ok a, objects)

theorem Yields.bind {m : HostM α} {f : α → HostM β} {a : α} {b : β} (first : Yields m a)
    (rest : Yields (f a) b) : Yields (m >>= f) b := by
  intro objects
  rw [ExceptT.run_bind, StateT.run_bind, first objects]
  exact rest objects

theorem yields_pure (a : α) : Yields (pure a) a := fun _ => rfl

theorem yields_mapM {f : α → HostM β} {items : List α} {results : List β}
    (each : List.Forall₂ (fun a b => Yields (f a) b) items results) :
    Yields (items.mapM f) results := by
  induction each with
  | nil => exact yields_pure []
  | cons first _ ih =>
    rw [List.mapM_cons]
    exact first.bind (ih.bind (yields_pure _))

theorem yields_textOf (s : String) : Yields (textOf (.str s)) s := fun _ => rfl

end HostM

namespace HostValue.Same

variable {h : HostValue}

theorem list_inv {items : List HostValue} (same : h.Same (.list items)) :
    ∃ others, h = .list others ∧ List.Forall₂ Same others items := by
  cases same with
  | refl => exact ⟨items, rfl, List.forall₂_same.2 fun _ _ => .refl _⟩
  | list each => exact ⟨_, rfl, each⟩

theorem map_inv {pairs : List (HostValue × HostValue)} (same : h.Same (.map pairs)) :
    ∃ others ordered, h = .map others ∧ others.Perm ordered ∧
      ordered.map (·.1) = pairs.map (·.1) ∧
        List.Forall₂ Same (ordered.map (·.2)) (pairs.map (·.2)) := by
  cases same with
  | refl => exact ⟨pairs, pairs, rfl, .refl _, rfl, List.forall₂_same.2 fun _ _ => .refl _⟩
  | map order keys each => exact ⟨_, _, rfl, order, keys, each⟩

/-- Only containers have forms that are the same without being equal. -/
theorem eq_of_scalar {v : HostValue} (same : h.Same v) (flat : v.height = 0) : h = v := by
  cases same with
  | refl => rfl
  | list each => cases flat
  | map order keys each => cases flat

theorem eq_of_scalar_left {v : HostValue} (same : h.Same v) (flat : h.height = 0) : h = v := by
  cases same with
  | refl => rfl
  | list each => cases flat
  | map order keys each => cases flat

end HostValue.Same

namespace Storage

open HostValue HostM

variable {storage item : Storage} {d : Datum} {text : HostValue → Option String}

/-- A storage takes a host value for a stored value that is like another one. -/
def Restores (storage : Storage) (h : HostValue) (d : Datum) : Prop :=
  ∃ again, Yields (storage.store h) again ∧ again.Alike d

theorem restores_list {values : List HostValue} {items : List Datum}
    (each : List.Forall₂ (item.Restores · ·) values items) :
    (Storage.list item).Restores (.list values) (.list items) := by
  have stored : ∃ again, List.Forall₂ (fun v d => Yields (item.store v) d) values again ∧
      List.Forall₂ Datum.Alike again items := by
    induction each with
    | nil => exact ⟨[], .nil, .nil⟩
    | cons first _ ih =>
      obtain ⟨d, yields, alike⟩ := first
      obtain ⟨rest, yieldsRest, alikeRest⟩ := ih
      exact ⟨d :: rest, .cons yields yieldsRest, .cons alike alikeRest⟩
  obtain ⟨again, yields, alike⟩ := stored
  refine ⟨.list again, ?_, .list alike⟩
  rw [store]
  exact (yields_mapM yields).bind (yields_pure _)

/-- Lists that agree place by place do so with members of the second one. -/
theorem forall₂_of_mem {α β : Type} {R S : α → β → Prop} {as : List α} {bs : List β}
    (agree : List.Forall₂ R as bs) (implies : ∀ a, ∀ b ∈ bs, R a b → S a b) :
    List.Forall₂ S as bs := by
  induction agree with
  | nil => exact .nil
  | cons here _ ih =>
    exact .cons (implies _ _ List.mem_cons_self here)
      (ih fun a b inside => implies a b (List.mem_cons_of_mem _ inside))

/-- Pairs agree with rows if their keys do and their values do. -/
theorem forall₂_of_columns {α β γ δ : Type} {R : β → δ → Prop} {pairs : List (α × β)}
    {rows : List γ} {f : γ → α} {g : γ → δ} (keys : pairs.map (·.1) = rows.map f)
    (values : List.Forall₂ R (pairs.map (·.2)) (rows.map g)) :
    List.Forall₂ (fun pair row => pair.1 = f row ∧ R pair.2 (g row)) pairs rows := by
  induction rows generalizing pairs with
  | nil =>
    rw [List.map_eq_nil_iff.1 keys]
    exact .nil
  | cons row rows ih =>
    cases pairs with
    | nil => cases keys
    | cons pair pairs =>
      obtain ⟨here, later⟩ := List.forall₂_cons.1 values
      obtain ⟨key, keys⟩ := List.cons_eq_cons.1 keys
      exact .cons ⟨key, here⟩ (ih keys later)

/-- How a pair of a map is stored. -/
def storeEntry (item : Storage) (pair : HostValue × HostValue) : HostM (String × Datum) := do
  let text ← HostM.textOf pair.1
  return (text, ← item.store pair.2)

theorem store_map (item : Storage) (pairs : List (HostValue × HostValue)) :
    (Storage.map item).store (.map pairs) = (do
      let entries ← pairs.mapM item.storeEntry
      return .map (Datum.ofSortedEntries entries)) := rfl

/-- A map is stored in order, in whatever order its pairs come. -/
theorem restores_map {pairs ordered : List (HostValue × HostValue)}
    {entries : List (String × Datum)} (ascending : entries.Pairwise fun a b => a.1 < b.1)
    (order : pairs.Perm ordered)
    (each : List.Forall₂ (fun pair entry => pair.1 = .str entry.1 ∧ item.Restores pair.2 entry.2)
      ordered entries) :
    (Storage.map item).Restores (.map pairs) (.map entries) := by
  have stored : ∃ again, List.Forall₂ (fun pair row => Yields (item.storeEntry pair) row)
      ordered again ∧ again.map (·.1) = entries.map (·.1) ∧
        List.Forall₂ Datum.Alike (again.map (·.2)) (entries.map (·.2)) := by
    clear order ascending
    induction each with
    | nil => exact ⟨[], .nil, rfl, .nil⟩
    | @cons pair entry _ _ first _ ih =>
      obtain ⟨key, d, yields, alike⟩ := first
      obtain ⟨rest, yieldsRest, keys, alikeRest⟩ := ih
      have yieldsFirst : Yields (item.storeEntry pair) (entry.1, d) := by
        rw [storeEntry, key]
        exact (yields_textOf entry.1).bind (yields.bind (yields_pure _))
      refine ⟨(entry.1, d) :: rest, .cons yieldsFirst yieldsRest, ?_, .cons alike alikeRest⟩
      rw [List.map_cons, List.map_cons, keys]
  obtain ⟨again, yields, keys, alike⟩ := stored
  obtain ⟨rows, yieldsRows, perm⟩ := List.perm_comp_forall₂ order yields
  have sorted : again.Pairwise fun a b => a.1 < b.1 := by
    have names : (again.map (·.1)).Pairwise (· < ·) := by
      rw [keys]
      exact List.pairwise_map.2 ascending
    exact List.pairwise_map.1 names
  refine ⟨.map again, ?_, .map keys alike⟩
  rw [store_map, ← Datum.ofSortedEntries_perm sorted perm]
  exact (yields_mapM yieldsRows).bind (yields_pure _)

/-- An integral number is found again by the types of numbers. -/
theorem restores_of_float {x : Binary64}
    (whole : ∀ i, x.toInt64? = some i → storage.Restores (.int i) (.float x))
    (other : storage.Restores (.float x) (.float x)) {h : HostValue}
    (same : h.Same (normal text (.float x))) : storage.Restores h (.float x) := by
  rw [normal] at same
  cases integral : x.toInt64? with
  | some i =>
    rw [integral] at same
    rw [same.eq_of_scalar rfl]
    exact whole i integral
  | none =>
    rw [integral] at same
    rw [same.eq_of_scalar rfl]
    exact other

theorem restores_float (x : Binary64) {h : HostValue} (same : h.Same (normal text (.float x))) :
    Storage.float.Restores h (.float x) := by
  refine restores_of_float (fun i integral => ?_) ⟨.float x, yields_pure _, .refl _⟩ same
  exact ⟨.float (.ofInt64 i), yields_pure _, .float (Binary64.ofInt64_alike integral)⟩

theorem restores_single {x : Binary64} (exact : x.toSingle = x) {h : HostValue}
    (same : h.Same (normal text (.float x))) : Storage.single.Restores h (.float x) := by
  refine restores_of_float (fun i integral => ?_) ⟨.float x.toSingle, yields_pure _, ?_⟩ same
  · refine ⟨.float (Binary64.ofInt64 i).toSingle, yields_pure _, .float ?_⟩
    exact Binary64.toSingle_ofInt64_alike exact integral
  · rw [exact]
    exact .refl _

/-- A word without its highest bit is not negative as an integer, and found again. -/
theorem store_size {n : UInt64} (small : n.toNat < 2 ^ 63) :
    Storage.size.store (.int n.toInt64) = pure (.size n) := by
  have natural : 0 ≤ n.toInt64.toInt := by
    have value : n.toInt64.toInt = n.toNat :=
      BitVec.toInt_eq_toNat_of_lt (x := n.toBitVec) (by rw [UInt64.toNat_toBitVec]; omega)
    rw [value]
    exact Int.natCast_nonneg _
  exact if_pos natural

theorem restores_size {n : UInt64} (small : n.toNat < 2 ^ 63) :
    Storage.size.Restores (.int n.toInt64) (.size n) :=
  ⟨.size n, store_size small ▸ yields_pure _, .refl _⟩

/-- What is neither nil nor a null pointer is stored as a present value. -/
theorem store_option (content : Storage) {h : HostValue} (notNil : h ≠ .nil)
    (notNull : h ≠ .ptr none) :
    (Storage.option content).store h = (do return .present (← content.store h)) := by
  cases h with
  | nil => exact absurd rfl notNil
  | ptr target =>
    cases target with
    | none => exact absurd rfl notNull
    | some o => rfl
  | _ => rfl

/-- What a typed value is after it crossed is stored as a value that is like it. -/
theorem Holds.restores (holds : storage.Holds d) {h : HostValue}
    (same : h.Same (normal text d.asHost)) : storage.Restores h d := by
  induction holds generalizing h with
  | @int32 i range =>
    rw [same.eq_of_scalar rfl]
    have stored : Storage.int32.store (.int i) = pure (.int i) := if_pos range
    exact ⟨.int i, stored ▸ yields_pure _, .refl _⟩
  | size small =>
    rw [same.eq_of_scalar rfl]
    exact restores_size small
  | float x => exact restores_float x same
  | single exact => exact restores_single exact same
  | list few each ih =>
    rw [Datum.asHost, Holds.normal_list each] at same
    obtain ⟨values, rfl, alike⟩ := same.list_inv
    refine restores_list (forall₂_of_mem (List.forall₂_map_right_iff.1 alike) ?_)
    exact fun v d inside same => ih d inside same
  | @map item entries ascending each ih =>
    rw [Datum.asHost, Holds.normal_map ascending each] at same
    split at same
    · next none =>
      -- A map without entries came back as a list without items.
      subst none
      obtain ⟨values, rfl, alike⟩ := same.list_inv
      cases alike
      exact ⟨.map [], yields_pure _, .refl _⟩
    · obtain ⟨pairs, ordered, rfl, order, keys, alike⟩ := same.map_inv
      rw [List.map_map] at keys alike
      refine restores_map ascending order (forall₂_of_mem (forall₂_of_columns keys alike) ?_)
      intro pair entry inside columns
      exact ⟨columns.1, ih entry inside columns.2⟩
  | _ =>
    rw [same.eq_of_scalar rfl]
    exact ⟨_, yields_pure _, .refl _⟩

/-- A typed value is not taken for an absent one. -/
theorem Holds.present (holds : storage.Holds d) {h : HostValue}
    (same : h.Same (normal text d.asHost)) : h ≠ .nil ∧ h ≠ .ptr none := by
  have there : (normal text d.asHost).isNil = false := holds.isNil_normal
  have kept : normal text d.asHost ≠ .ptr none := by
    intro missing
    cases holds with
    | float x | single exact =>
      rw [Datum.asHost, normal] at missing
      split at missing <;> cases missing
    | map ascending each =>
      rw [Datum.asHost, normal, gathered] at missing
      split at missing <;> cases missing
    | _ => cases missing
  constructor
  · rintro rfl
    rw [← same.eq_of_scalar_left rfl] at there
    cases there
  · rintro rfl
    exact kept (same.eq_of_scalar_left rfl).symm

theorem Carries.restores (carries : storage.Carries d) {h : HostValue}
    (same : h.Same (normal text d.asHost)) : storage.Restores h d := by
  cases carries with
  | plain holds => exact holds.restores same
  | absent content =>
    rw [same.eq_of_scalar rfl]
    exact ⟨_, yields_pure _, .refl _⟩
  | @present content d holds =>
    obtain ⟨again, yields, alike⟩ := holds.restores same
    obtain ⟨notNil, notNull⟩ := holds.present same
    refine ⟨.present again, ?_, .present alike⟩
    rw [store_option content notNil notNull]
    exact yields.bind (yields_pure _)

theorem Carries.run_read (carries : storage.Carries d) (objects : Objects) :
    d.read.run objects = (d.asHost, objects) := by
  cases carries with
  | plain holds | present holds => exact holds.run_read objects
  | absent content => rfl

theorem Carries.fits (carries : storage.Carries d) : d.asHost.Fits := by
  cases carries with
  | plain holds | present holds => exact holds.fits
  | absent content => exact trivial

theorem Carries.runOn_value (carries : storage.Carries d) (object : ObjectId → CrossingM Value)
    (s : Machine) : ∃ w t, (Crossing.value object d.asHost).runOn s = (.ok w, t) := by
  cases carries with
  | plain holds | present holds => exact holds.runOn_value object s
  | absent content => exact ⟨_, _, rfl⟩

theorem Carries.height_le (carries : storage.Carries d) :
    (normal text d.asHost).height ≤ storage.nesting := by
  cases carries with
  | plain holds | present holds => exact holds.height_le
  | absent content => exact Nat.zero_le _

end Storage

/-! ## There and back -/

namespace Crossing

open MachineM Machine

/-- Hands a stored value to the scripts, takes it back and stores it again. -/
def carry (storage : Storage) (d : Datum) : CrossingM Datum := do
  let v ← readObjects d.read
  let w ← toScript v
  let h ← toHost w
  onObjects .host (storage.store h)

/--
A value of a type made of scalars, objects, lists and maps, that may be absent as a whole, survives
the way to the scripts and back if its type nests no deeper than tables may.
-/
theorem carry_alike {s : Machine} (sound : s.Sound) {storage : Storage} {d : Datum}
    (carries : storage.Carries d) (low : storage.nesting ≤ 128) :
    ∃ again t, (carry storage d).runOn s = (.ok again, t) ∧ again.Alike d := by
  obtain ⟨w, t, crossed⟩ := carries.runOn_value structure? s
  obtain ⟨mirrors, -⟩ := value_mirrors structure?_makes stands_structure? sound
    (fun _ _ found => found : TextsIn t t.objects.text) d.asHost carries.fits crossed
  obtain ⟨grown, within⟩ := value_makes structure?_makes d.asHost s w t sound crossed
  have calm : t.Calm w := calm_of_within (grown.layered _ (Nat.le_refl _) s.layered_size) within
  obtain ⟨h, back, same⟩ :=
    (runOn_toHost_of_mirrors mirrors calm).1 (Nat.le_trans carries.height_le low)
  obtain ⟨again, yields, alike⟩ := carries.restores same
  let u : Machine := ((toHost w).runOn t).2
  have read : (readObjects d.read : CrossingM HostValue).runOn s = (.ok d.asHost, s) := by
    rw [runOn_readObjects, carries.run_read]
  have taken : (toHost w).runOn t = (.ok h, u) := Prod.ext back rfl
  have stored : (onObjects .host (storage.store h) : CrossingM Datum).runOn u = (.ok again, u) := by
    rw [runOn_onObjects, yields]
    rfl
  refine ⟨again, u, ?_, alike⟩
  rw [carry, runOn_bind_ok read]
  have crossed : (toScript d.asHost).runOn s = (.ok w, t) := crossed
  rw [runOn_bind_ok crossed, runOn_bind_ok taken, stored]

/--
A map with text keys that look like numbers, and with an empty map inside, whose numbers are
integral.
-/
theorem carry_alike_digit_keys :
    let storage : Storage := .option (.map (.map (.list .float)))
    let d : Datum := .present (.map [("", .map []), ("1", .map [("2", .list [.float ⟨0⟩])])])
    ({} : Machine).Sound ∧ storage.Carries d ∧ storage.nesting ≤ 128 ∧
      ∃ again t, (carry storage d).runOn {} = (.ok again, t) ∧ again.Alike d := by
  intro storage d
  have sound : ({} : Machine).Sound := fun _ among => absurd among List.not_mem_nil
  have carries : storage.Carries d := by
    refine .present (.map (by decide) ?_)
    simp only [List.forall_mem_cons]
    refine ⟨.map .nil fun _ among => absurd among List.not_mem_nil, .map (by decide) ?_, ?_⟩
    · simp only [List.forall_mem_cons]
      refine ⟨.list (by decide) ?_, fun _ among => absurd among List.not_mem_nil⟩
      simp only [List.forall_mem_cons]
      exact ⟨.float _, fun _ among => absurd among List.not_mem_nil⟩
    · exact fun _ among => absurd among List.not_mem_nil
  have low : storage.nesting ≤ 128 := by decide
  exact ⟨sound, carries, low, carry_alike sound carries low⟩

end Crossing

end ScriptHost
