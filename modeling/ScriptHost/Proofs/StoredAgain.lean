import ScriptHost.Host.Resource
import ScriptHost.Proofs.HostRuns
import ScriptHost.Proofs.SinglePrecision
import ScriptHost.Proofs.Texts

/-!
# What is read is stored again

A stored value is read as a host value: a record becomes a structure that is a new object, an absent
value becomes nil.  The same type takes the host value for the stored one that it was read from.
What a type can hold is told by the type, and the way back by induction on it.
-/

namespace ScriptHost

namespace Storage

def IsOption : Storage → Prop
  | .option _ => True
  | _ => False

/--
The stored values of a type made of scalars, objects, records, lists, maps and values that may be
absent.  A map has each key once, in whatever order it lists its entries.
-/
inductive Contains : Storage → Datum → Prop where
  | bool (b : Bool) : Contains .bool (.bool b)
  | int64 (i : Int64) : Contains .int64 (.int i)
  | int32 {i : Int64}
      (range : Int32.minValue.toInt ≤ i.toInt ∧ i.toInt ≤ Int32.maxValue.toInt) :
      Contains .int32 (.int i)
  | size {n : UInt64} (small : n.toNat < 2 ^ 63) : Contains .size (.size n)
  | float (x : Binary64) : Contains .float (.float x)
  | single {x : Binary64} (single : x.IsSingle) : Contains .single (.float x)
  | text (s : String) : Contains .text (.text s)
  | object (o : ObjectId) : Contains .object (.object o)
  | record (shape : Shape) (fields : List Datum) : Contains (.record shape) (.record shape fields)
  | absent (content : Storage) : Contains (.option content) .absent
  | present {content : Storage} {d : Datum} (plain : ¬ content.IsOption)
      (contains : Contains content d) : Contains (.option content) (.present d)
  | list {item : Storage} {items : List Datum} (each : ∀ d ∈ items, Contains item d) :
      Contains (.list item) (.list items)
  | map {item : Storage} {entries : List (String × Datum)}
      (distinct : (entries.map (·.1)).Nodup)
      (each : ∀ entry ∈ entries, Contains item entry.2) :
      Contains (.map item) (.map (Datum.ofSortedEntries entries))

/--
A storage takes what a stored value is read as for that stored value again, now and after further
objects were made.
-/
def ReadsBack (storage : Storage) (d : Datum) : Prop :=
  ∀ objects : Objects, objects.Extends (d.read.run objects).2 ∧
    ∀ later, (d.read.run objects).2.Extends later →
      (storage.store (d.read.run objects).1).runOn later = (.ok d, later)

end Storage

namespace Datum

/-- Maps in order have the entries that were put into them. -/
theorem ofSortedEntries_spec {α : Type} {entries : List (String × α)}
    (distinct : (entries.map (·.1)).Nodup) :
    (ofSortedEntries entries).Perm entries ∧
      (ofSortedEntries entries).Pairwise fun a b => a.1 < b.1 :=
  @foldl_insertEntry α entries [] distinct .nil

end Datum

namespace Storage

open HostM

variable {storage item : Storage} {d : Datum}

/-- What does not change with the objects is read back if it is stored again. -/
theorem readsBack_of_yields {h : HostValue} (read : d.read = pure h)
    (stored : Yields (storage.store h) d) : storage.ReadsBack d := by
  intro objects
  rw [read]
  exact ⟨.refl _, fun later _ => stored later⟩

/-- A record is read as a new object that nobody holds. -/
theorem readsBack_record (shape : Shape) (fields : List Datum) :
    (Storage.record shape).ReadsBack (.record shape fields) := by
  intro objects
  have read : (Datum.record shape fields).read.run objects =
      (.struct ⟨objects.size⟩, (objects.add { shape, fields }).2) := rfl
  rw [read]
  refine ⟨.push _ _, fun later after => ?_⟩
  have new : later.get ⟨objects.size⟩ = { shape, fields } := by
    have inside : objects.size < (objects.add { shape, fields }).2.size := by
      rw [Objects.size_add]
      exact Nat.lt_succ_self _
    have kept : later.get ⟨objects.size⟩ = _ := after.get inside
    rw [kept]
    exact objects.get_add_self _
  have free : (later.get ⟨objects.size⟩).hold ≠ .exclusive ∧
      (later.get ⟨objects.size⟩).shape.Is shape := by
    rw [new]
    exact ⟨nofun, rfl, rfl⟩
  have stored : (Storage.record shape).store (.struct ⟨objects.size⟩) = (do
      let i ← instanceOf ⟨objects.size⟩
      if i.hold ≠ .exclusive ∧ i.shape.Is shape then return .record shape i.fields
      else fail (.receiver shape.name)) := rfl
  rw [stored, runOn_bind_ok (runOn_instanceOf _ later), if_pos free, runOn_pure, new]

/-- What a type holds that is no option is not read as an absent value. -/
theorem Contains.read_ne (contains : storage.Contains d) (plain : ¬ storage.IsOption)
    (objects : Objects) :
    (d.read.run objects).1 ≠ .nil ∧ (d.read.run objects).1 ≠ .ptr none := by
  cases contains with
  | absent content => exact absurd trivial plain
  | present notOption contains => exact absurd trivial plain
  | _ => exact ⟨nofun, nofun⟩

theorem readsBack_present {content : Storage} (plain : ¬ content.IsOption)
    (contains : content.Contains d) (back : content.ReadsBack d) :
    (Storage.option content).ReadsBack (.present d) := by
  intro objects
  obtain ⟨grown, again⟩ := back objects
  obtain ⟨notNil, notNull⟩ := contains.read_ne plain objects
  refine ⟨grown, fun later after => ?_⟩
  have read : (Datum.present d).read = d.read := by rw [Datum.read]
  rw [read, store_option content notNil notNull]
  rw [read] at after
  rw [runOn_bind_ok (again later after), runOn_pure]

theorem runOn_mapM_readAll {items : List Datum} (each : ∀ d ∈ items, item.ReadsBack d)
    (objects : Objects) : objects.Extends ((Datum.readAll items).run objects).2 ∧
      ∀ later, ((Datum.readAll items).run objects).2.Extends later →
        (((Datum.readAll items).run objects).1.mapM item.store).runOn later =
          (.ok items, later) := by
  induction items generalizing objects with
  | nil => exact ⟨.refl _, fun _ _ => rfl⟩
  | cons first rest ih =>
    obtain ⟨here, others⟩ := List.forall_mem_cons.1 each
    obtain ⟨grown, again⟩ := here objects
    obtain ⟨grownRest, againRest⟩ := ih others (first.read.run objects).2
    have read : (Datum.readAll (first :: rest)).run objects =
        ((first.read.run objects).1 ::
            ((Datum.readAll rest).run (first.read.run objects).2).1,
          ((Datum.readAll rest).run (first.read.run objects).2).2) := rfl
    rw [read]
    refine ⟨grown.trans grownRest, fun later after => ?_⟩
    rw [List.mapM_cons, runOn_bind_ok (again later (grownRest.trans after)),
      runOn_bind_ok (againRest later after), runOn_pure]

theorem runOn_mapM_readEntries {entries : List (String × Datum)}
    (each : ∀ entry ∈ entries, item.ReadsBack entry.2)
    (objects : Objects) : objects.Extends ((Datum.readEntries entries).run objects).2 ∧
      ∀ later, ((Datum.readEntries entries).run objects).2.Extends later →
        (((Datum.readEntries entries).run objects).1.mapM item.storeEntry).runOn later =
          (.ok entries, later) := by
  induction entries generalizing objects with
  | nil => exact ⟨.refl _, fun _ _ => rfl⟩
  | cons first rest ih =>
    obtain ⟨here, others⟩ := List.forall_mem_cons.1 each
    obtain ⟨grown, again⟩ := here objects
    obtain ⟨grownRest, againRest⟩ := ih others (first.2.read.run objects).2
    have read : (Datum.readEntries (first :: rest)).run objects =
        ((.str first.1, (first.2.read.run objects).1) ::
            ((Datum.readEntries rest).run (first.2.read.run objects).2).1,
          ((Datum.readEntries rest).run (first.2.read.run objects).2).2) := rfl
    rw [read]
    refine ⟨grown.trans grownRest, fun later after => ?_⟩
    have named : (textOf (.str first.1)).runOn later = (.ok first.1, later) := rfl
    have stored : (item.storeEntry (.str first.1, (first.2.read.run objects).1)).runOn later =
        (.ok first, later) := by
      rw [storeEntry, runOn_bind_ok named,
        runOn_bind_ok (again later (grownRest.trans after)), runOn_pure]
    rw [List.mapM_cons, runOn_bind_ok stored, runOn_bind_ok (againRest later after), runOn_pure]

/-- The values of a type are read as host values that the type takes for them again. -/
theorem Contains.readsBack (contains : storage.Contains d) : storage.ReadsBack d := by
  induction contains with
  | @int32 i range =>
    have stored : Storage.int32.store (.int i) = pure (.int i) := if_pos range
    exact readsBack_of_yields rfl (stored ▸ yields_pure _)
  | size small => exact readsBack_of_yields rfl (store_size small ▸ yields_pure _)
  | @single x single =>
    have stored : Storage.single.store (.float x) = pure (.float x.toSingle) := rfl
    rw [single.toSingle_eq] at stored
    exact readsBack_of_yields rfl (stored ▸ yields_pure _)
  | record shape fields => exact readsBack_record shape fields
  | present plain contains ih => exact readsBack_present plain contains ih
  | @list item items each ih =>
    intro objects
    obtain ⟨grown, again⟩ := runOn_mapM_readAll ih objects
    have read : (Datum.list items).read.run objects =
        (.list ((Datum.readAll items).run objects).1, ((Datum.readAll items).run objects).2) := rfl
    rw [read]
    refine ⟨grown, fun later after => ?_⟩
    rw [store, runOn_bind_ok (again later after), runOn_pure]
  | @map item entries distinct each ih =>
    obtain ⟨perm, ascending⟩ := Datum.ofSortedEntries_spec distinct
    have inOrder := Datum.ofSortedEntries_perm ascending (.refl _)
    have ih : ∀ entry ∈ Datum.ofSortedEntries entries, item.ReadsBack entry.2 :=
      fun entry inside => ih entry (perm.mem_iff.1 inside)
    generalize Datum.ofSortedEntries entries = ordered at ih inOrder
    intro objects
    obtain ⟨grown, again⟩ := runOn_mapM_readEntries ih objects
    have read : (Datum.map ordered).read.run objects =
        (.map ((Datum.readEntries ordered).run objects).1,
          ((Datum.readEntries ordered).run objects).2) := rfl
    rw [read]
    refine ⟨grown, fun later after => ?_⟩
    rw [store_map, runOn_bind_ok (again later after), runOn_pure, inOrder]
  | _ => exact readsBack_of_yields rfl (yields_pure _)

/--
Reading a stored value leaves all objects as they are, and the type takes what was read for the
stored value again: numbers with the same bits, records with all their fields, hidden ones among
them, and the same shared objects.  Further objects that were made since do not matter.
-/
theorem stored_again (contains : storage.Contains d) (objects : Objects) :
    objects.Extends (d.read.run objects).2 ∧
      ∀ later, (d.read.run objects).2.Extends later →
        (storage.store (d.read.run objects).1).runOn later = (.ok d, later) :=
  contains.readsBack objects

/-- Absent items stay in their places, and a revision that nobody sees comes back. -/
theorem stored_again_nested :
    let storage : Storage := .map (.list (.option (.record Resource.shape)))
    let resource : Resource := { name := "web", revision := 7 }
    let d : Datum := .map (Datum.ofSortedEntries [
      ("up", .list [.absent, .present (.record Resource.shape (Resource.layout.fields resource))]),
      ("down", .list [])])
    storage.Contains d ∧ ∀ objects,
      (storage.store (d.read.run objects).1).runOn (d.read.run objects).2 =
        (.ok d, (d.read.run objects).2) := by
  intro storage resource d
  have contains : storage.Contains d := by
    refine .map (by decide) ?_
    simp only [List.forall_mem_cons]
    refine ⟨.list ?_, .list nofun, nofun⟩
    simp only [List.forall_mem_cons]
    exact ⟨.absent _, .present nofun (.record _ _), nofun⟩
  exact ⟨contains, fun objects => (stored_again contains objects).2 _ (.refl _)⟩

end Storage

end ScriptHost
