import Mathlib.Logic.Relation
import ScriptHost.Proofs.Growth

/-!
# Runs with proxies

A chronicle is a machine with a record of the tables that became proxies, of the host values that
they were made for, and of those that were collected.  Scripts and hosts may write whatever they
want between two of these events.  The invariant ties the record to the row of slots: proxies that
were not collected have slots of their own, which hold their host values, and no other table has
one.  A slot that was given back is used again, but only after its proxy is gone.
-/

namespace ScriptHost

/-! ## References to host objects -/

mutual

/-- All objects that a host value refers to are among the first ones of a heap. -/
def HostValue.Known (size : Nat) : HostValue → Prop
  | .list items => HostValue.KnownItems size items
  | .map pairs => HostValue.KnownPairs size pairs
  | .struct o => o.index < size
  | .ptr (some o) => o.index < size
  | _ => True

def HostValue.KnownItems (size : Nat) : List HostValue → Prop
  | [] => True
  | item :: rest => item.Known size ∧ HostValue.KnownItems size rest

def HostValue.KnownPairs (size : Nat) : List (HostValue × HostValue) → Prop
  | [] => True
  | (_, item) :: rest => item.Known size ∧ HostValue.KnownPairs size rest

end

mutual

/-- All objects that a stored value refers to are among the first ones of a heap. -/
def Datum.Known (size : Nat) : Datum → Prop
  | .object o => o.index < size
  | .any v => v.Known size
  | .record _ fields => Datum.KnownItems size fields
  | .present content => content.Known size
  | .list items => Datum.KnownItems size items
  | .map entries => Datum.KnownEntries size entries
  | _ => True

def Datum.KnownItems (size : Nat) : List Datum → Prop
  | [] => True
  | item :: rest => item.Known size ∧ Datum.KnownItems size rest

def Datum.KnownEntries (size : Nat) : List (String × Datum) → Prop
  | [] => True
  | (_, item) :: rest => item.Known size ∧ Datum.KnownEntries size rest

end

section

variable {size larger : Nat}

mutual

theorem HostValue.Known.mono (more : size ≤ larger) :
    ∀ {v : HostValue}, v.Known size → v.Known larger
  | .list _, known => HostValue.KnownItems.mono more known
  | .map _, known => HostValue.KnownPairs.mono more known
  | .struct _, known => Nat.lt_of_lt_of_le known more
  | .ptr (some _), known => Nat.lt_of_lt_of_le known more
  | .ptr none, _ | .nil, _ | .bool _, _ | .int _, _ | .float _, _ | .str _, _ | .foreign _, _ =>
    trivial

theorem HostValue.KnownItems.mono (more : size ≤ larger) :
    ∀ {items : List HostValue}, HostValue.KnownItems size items → HostValue.KnownItems larger items
  | [], _ => trivial
  | _ :: _, known => ⟨known.1.mono more, HostValue.KnownItems.mono more known.2⟩

theorem HostValue.KnownPairs.mono (more : size ≤ larger) :
    ∀ {pairs : List (HostValue × HostValue)},
      HostValue.KnownPairs size pairs → HostValue.KnownPairs larger pairs
  | [], _ => trivial
  | (_, _) :: _, known => ⟨known.1.mono more, HostValue.KnownPairs.mono more known.2⟩

end

mutual

theorem Datum.Known.mono (more : size ≤ larger) : ∀ {d : Datum}, d.Known size → d.Known larger
  | .object _, known => Nat.lt_of_lt_of_le known more
  | .any _, known => HostValue.Known.mono more known
  | .record _ _, known => Datum.KnownItems.mono more known
  | .present content, known => (show content.Known size from known).mono more
  | .list _, known => Datum.KnownItems.mono more known
  | .map _, known => Datum.KnownEntries.mono more known
  | .bool _, _ | .int _, _ | .size _, _ | .float _, _ | .text _, _ | .absent, _ => trivial

theorem Datum.KnownItems.mono (more : size ≤ larger) :
    ∀ {items : List Datum}, Datum.KnownItems size items → Datum.KnownItems larger items
  | [], _ => trivial
  | _ :: _, known => ⟨known.1.mono more, Datum.KnownItems.mono more known.2⟩

theorem Datum.KnownEntries.mono (more : size ≤ larger) :
    ∀ {entries : List (String × Datum)},
      Datum.KnownEntries size entries → Datum.KnownEntries larger entries
  | [], _ => trivial
  | (_, _) :: _, known => ⟨known.1.mono more, Datum.KnownEntries.mono more known.2⟩

end

end

theorem HostValue.Known.object {size : Nat} {v : HostValue} {o : ObjectId} (known : v.Known size)
    (refers : v.object? = some o) : o.index < size := by
  cases v with
  | struct other =>
    cases refers
    exact known
  | ptr target =>
    cases refers
    exact known
  | _ => cases refers

namespace Objects

/-- The objects refer to objects that exist. -/
def Closed (objects : Objects) : Prop :=
  ∀ o, Datum.KnownItems objects.size (objects.get o).fields

/-- A heap with the objects of an earlier one: their fields may differ, their types do not. -/
structure Follows (objects earlier : Objects) : Prop where
  size_le : earlier.size ≤ objects.size
  shape : ∀ o : ObjectId, o.index < earlier.size →
    (objects.get o).shape = (earlier.get o).shape

variable {a b c : Objects}

theorem Follows.refl (a : Objects) : a.Follows a := ⟨Nat.le_refl _, fun _ _ => rfl⟩

theorem Follows.trans (second : c.Follows b) (first : b.Follows a) : c.Follows a where
  size_le := Nat.le_trans first.size_le second.size_le
  shape o inside :=
    (second.shape o (Nat.lt_of_lt_of_le inside first.size_le)).trans (first.shape o inside)

theorem get_add_of_lt (objects : Objects) (i : Instance) {o : ObjectId}
    (inside : o.index < objects.size) : (objects.add i).2.get o = objects.get o := by
  have other : o.index ≠ objects.instances.size := Nat.ne_of_lt inside
  simp [get, add, Array.getElem?_push, other]

theorem get_add_self (objects : Objects) (i : Instance) :
    (objects.add i).2.get (objects.add i).1 = i := by
  simp [get, add]

theorem follows_add (objects : Objects) (i : Instance) : (objects.add i).2.Follows objects where
  size_le := by simp [size, add]
  shape o inside := by rw [get_add_of_lt objects i inside]

/-- A new object that refers to known ones keeps a heap closed. -/
theorem Closed.add {objects : Objects} (closed : objects.Closed) {i : Instance}
    (known : Datum.KnownItems objects.size i.fields) : (objects.add i).2.Closed := by
  have more : objects.size ≤ (objects.add i).2.size := (follows_add objects i).size_le
  intro o
  rcases Nat.lt_trichotomy o.index objects.size with inside | last | beyond
  · rw [get_add_of_lt objects i inside]
    exact (closed o).mono more
  · have same : o = (objects.add i).1 := by
      cases o
      cases last
      rfl
    rw [same, get_add_self]
    exact known.mono more
  · have absent : (objects.add i).2.instances[o.index]? = none := by
      refine Array.getElem?_eq_none ?_
      simp only [Objects.add, Array.size_push]
      exact beyond
    rw [get, absent]
    exact trivial

theorem get_set_of_ne (objects : Objects) (i : Instance) {o other : ObjectId} (apart : other ≠ o) :
    (objects.set o i).get other = objects.get other := by
  have different : o.index ≠ other.index := by
    intro same
    cases o
    cases other
    exact apart (congrArg ObjectId.mk same.symm)
  simp [get, set, Array.getElem?_setIfInBounds_ne different]

theorem get_set_self (objects : Objects) (i : Instance) {o : ObjectId}
    (inside : o.index < objects.size) : (objects.set o i).get o = i := by
  simp only [size] at inside
  simp [get, set, inside]

/-- A host that writes to an object does not change its type. -/
theorem follows_set (objects : Objects) (o : ObjectId) (fields : List Datum) :
    (objects.set o { objects.get o with fields }).Follows objects where
  size_le := by simp [size, set]
  shape other inside := by
    by_cases same : other = o
    · subst same
      rw [get_set_self objects _ inside]
    · rw [get_set_of_ne objects _ same]

theorem Closed.set {objects : Objects} (closed : objects.Closed) (o : ObjectId)
    {fields : List Datum} (known : Datum.KnownItems objects.size fields) :
    (objects.set o { objects.get o with fields }).Closed := by
  have size : (objects.set o { objects.get o with fields }).size = objects.size := by
    simp [Objects.size, Objects.set]
  intro other
  rw [size]
  by_cases same : other = o
  · subst same
    by_cases inside : other.index < objects.size
    · rw [get_set_self objects _ inside]
      exact known
    · have beyond : (objects.set other { objects.get other with fields }).size ≤ other.index :=
        Nat.le_trans (Nat.le_of_eq size) (Nat.le_of_not_lt inside)
      have absent : (objects.set other { objects.get other with fields }).instances[other.index]? =
          none := Array.getElem?_eq_none beyond
      rw [get, absent]
      exact trivial
  · rw [get_set_of_ne objects _ same]
    exact closed other

end Objects

/-! ## Slots that are given back -/

namespace Arena

variable {α : Type}

/-- Giving slots back leaves the other slots alone. -/
theorem get?_releases {dropped : List Nat} {other : Nat} (apart : other ∉ dropped)
    (s : Arena α) : (dropped.foldl release s).get? other = s.get? other := by
  induction dropped generalizing s with
  | nil => rfl
  | cons first rest ih =>
    rw [List.mem_cons, not_or] at apart
    rw [List.foldl_cons, ih apart.2, get?_release_of_ne apart.1]

end Arena

namespace Machine

/-- The handle that a proxy for a host value gets. -/
def handleOf (s : Machine) (v : HostValue) : Handle :=
  ⟨v, v.object?.map fun o => (s.objects.get o).shape⟩

/-- The machine after the proxies that fail a test were collected. -/
def keeping (s : Machine) (kept : TableId → Bool) : Machine :=
  { s with
    proxies := s.proxies.filter fun entry => kept entry.1
    handles := s.handles.map fun slots =>
      ((s.proxies.filter fun entry => !kept entry.1).map (·.2)).foldl Arena.release slots }

end Machine

/-- Pairs whose key passes a test are found among those that pass it. -/
theorem lookup_filter_of_test {kept : TableId → Bool} {id : TableId} (test : kept id = true)
    {pairs : List (TableId × Nat)} :
    (pairs.filter fun entry => kept entry.1).lookup id = pairs.lookup id := by
  induction pairs with
  | nil => rfl
  | cons first rest ih =>
    obtain ⟨other, slot⟩ := first
    by_cases same : id = other
    · subst same
      simp only [List.filter_cons, test, if_true, List.lookup_cons_self]
    · have apart : (id == other) = false := by simpa using same
      cases other_test : kept other <;>
        simp [List.lookup_cons, other_test, apart, ih]

/-- A machine with what happened to its proxies so far. -/
structure Chronicle where
  machine : Machine
  /-- The tables that became proxies, with the host values that they were made for. -/
  made : List (TableId × HostValue)
  /-- The proxies that were collected. -/
  lost : List TableId

namespace Chronicle

/-- The tables that became proxies at some time. -/
def everMade (c : Chronicle) : List TableId := c.made.map (·.1)

/-- A table became a proxy for a host value. -/
def proxied (c : Chronicle) (id : TableId) (v : HostValue) : Chronicle where
  machine := c.machine.marked id (c.machine.handleOf v)
  made := c.made ++ [(id, v)]
  lost := c.lost

/-- The proxies that fail a test were collected: their slots are given back. -/
def collected (c : Chronicle) (kept : TableId → Bool) : Chronicle where
  machine := c.machine.keeping kept
  made := c.made
  lost := c.lost ++ c.everMade.filter fun id => !kept id

theorem everMade_proxied (c : Chronicle) (id : TableId) (v : HostValue) :
    (c.proxied id v).everMade = c.everMade ++ [id] := by
  rw [everMade, proxied, List.map_append]
  rfl

/-- What can happen next. -/
inductive Step (c : Chronicle) : Chronicle → Prop where
  | newTable (t : Table) :
      Step c { c with machine := { c.machine with tables := c.machine.tables.push t } }
  /-- Fields and metatables of any tables change. -/
  | write (tables : Array Table) (size : tables.size = c.machine.tables.size) :
      Step c { c with machine := { c.machine with tables } }
  /-- The host writes to its objects or makes new ones. -/
  | host (objects : Objects) (follows : objects.Follows c.machine.objects)
      (closed : objects.Closed) : Step c { c with machine := { c.machine with objects } }
  /-- What else the machine holds changes. -/
  | other (machine : Machine) (tables : machine.tables = c.machine.tables)
      (objects : machine.objects = c.machine.objects)
      (handles : machine.handles = c.machine.handles)
      (proxies : machine.proxies = c.machine.proxies) : Step c { c with machine }
  /-- The machine is readied for proxies. -/
  | enable :
      Step c { c with machine :=
        { c.machine with handles := some (c.machine.handles.getD .empty) } }
  /-- A table that was none before becomes a proxy. -/
  | proxy (id : TableId) (v : HostValue) (inside : id.index < c.machine.tables.size)
      (fresh : id ∉ c.everMade) (known : v.Known c.machine.objects.size) :
      Step c (c.proxied id v)
  /-- Any proxies are collected. -/
  | collect (kept : TableId → Bool) : Step c (c.collected kept)

/-- All that can happen in any number of steps. -/
abbrev Run : Chronicle → Chronicle → Prop := Relation.ReflTransGen Step

/-- The machine knows the proxies that are left, and each one by what it was made for. -/
structure Sound (c : Chronicle) : Prop where
  closed : c.machine.objects.Closed
  inside : ∀ entry ∈ c.made, entry.1.index < c.machine.tables.size
  known : ∀ entry ∈ c.made, entry.2.Known c.machine.objects.size
  live : ∀ entry ∈ c.made, entry.1 ∉ c.lost →
    c.machine.handle? entry.1 = some (c.machine.handleOf entry.2)
  lost : ∀ id ∈ c.lost, id ∈ c.everMade
  proxies : ∀ entry ∈ c.machine.proxies, entry.1 ∈ c.everMade ∧ entry.1 ∉ c.lost
  slots : (c.machine.proxies.map (·.2)).Nodup
  sound : c.machine.Sound

variable {c d e : Chronicle}

/-- A chronicle begins without proxies. -/
theorem sound_start {s : Machine} (none : s.proxies = []) (closed : s.objects.Closed) :
    Sound ⟨s, [], []⟩ where
  closed := closed
  inside _ among := absurd among List.not_mem_nil
  known _ among := absurd among List.not_mem_nil
  live _ among := absurd among List.not_mem_nil
  lost _ among := absurd among List.not_mem_nil
  proxies _ among := absurd (none ▸ among) List.not_mem_nil
  slots := by simp [none]
  sound _ among := absurd (none ▸ among) List.not_mem_nil

namespace Sound

/-- A table that was never made a proxy has no slot. -/
theorem handle?_of_not_made (sound : c.Sound) {id : TableId} (never : id ∉ c.everMade) :
    c.machine.handle? id = none := by
  have absent : c.machine.proxies.lookup id = none := by
    rw [List.lookup_eq_none_iff]
    intro entry among
    have made := (sound.proxies entry among).1
    have different : id ≠ entry.1 := by
      rintro rfl
      exact never made
    simpa using different
  simp [Machine.handle?, absent]

/-- The slot of a proxy that is kept is not among those that are given back. -/
theorem not_dropped (sound : c.Sound) {kept : TableId → Bool} {entry : TableId × Nat}
    (among : entry ∈ c.machine.proxies) (test : kept entry.1 = true) :
    entry.2 ∉ (c.machine.proxies.filter fun entry => !kept entry.1).map (·.2) := by
  intro dropped
  obtain ⟨other, droppedOther, same⟩ := List.mem_map.1 dropped
  obtain ⟨otherAmong, failed⟩ := List.mem_filter.1 droppedOther
  obtain rfl : other = entry := List.inj_on_of_nodup_map sound.slots otherAmong among same
  rw [test] at failed
  cases failed

theorem handle?_keeping (sound : c.Sound) {kept : TableId → Bool} {id : TableId}
    (test : kept id = true) : (c.machine.keeping kept).handle? id = c.machine.handle? id := by
  have lookup : (c.machine.keeping kept).proxies.lookup id = c.machine.proxies.lookup id :=
    lookup_filter_of_test test
  cases there : c.machine.proxies.lookup id with
  | none => simp [Machine.handle?, lookup, there]
  | some slot =>
    obtain ⟨before, after, entries, -⟩ := List.lookup_eq_some_iff.1 there
    have among : (id, slot) ∈ c.machine.proxies := by simp [entries]
    obtain ⟨-, slots, found, -⟩ := sound.sound (id, slot) among
    have handles : (c.machine.keeping kept).handles = some
        (((c.machine.proxies.filter fun entry => !kept entry.1).map (·.2)).foldl
          Arena.release slots) := by
      rw [Machine.keeping, found, Option.map_some]
    simp [Machine.handle?, lookup, there, handles, found,
      Arena.get?_releases (sound.not_dropped among test)]

theorem newTable (sound : c.Sound) (t : Table) :
    Sound { c with machine := { c.machine with tables := c.machine.tables.push t } } where
  closed := sound.closed
  inside entry among := by
    simp only [Array.size_push]
    exact Nat.lt_succ_of_lt (sound.inside entry among)
  known := sound.known
  live := sound.live
  lost := sound.lost
  proxies := sound.proxies
  slots := sound.slots
  sound entry among := by
    obtain ⟨inside, handle⟩ := sound.sound entry among
    simp only [Array.size_push]
    exact ⟨Nat.lt_succ_of_lt inside, handle⟩

theorem write (sound : c.Sound) {tables : Array Table}
    (size : tables.size = c.machine.tables.size) :
    Sound { c with machine := { c.machine with tables } } where
  closed := sound.closed
  inside entry among := Nat.lt_of_lt_of_eq (sound.inside entry among) size.symm
  known := sound.known
  live := sound.live
  lost := sound.lost
  proxies := sound.proxies
  slots := sound.slots
  sound entry among := by
    obtain ⟨inside, handle⟩ := sound.sound entry among
    exact ⟨Nat.lt_of_lt_of_eq inside size.symm, handle⟩

/-- The handle of a proxy for a known object has the type of the object at any later time. -/
theorem handleOf_follows {s : Machine} {objects : Objects} (follows : objects.Follows s.objects)
    {v : HostValue} (known : v.Known s.objects.size) :
    { s with objects }.handleOf v = s.handleOf v := by
  unfold Machine.handleOf
  cases refers : v.object? with
  | none => rfl
  | some o =>
    rw [Option.map_some, Option.map_some]
    exact congrArg (fun shape => (⟨v, some shape⟩ : Handle)) (follows.shape o (known.object refers))

theorem host (sound : c.Sound) {objects : Objects} (follows : objects.Follows c.machine.objects)
    (closed : objects.Closed) :
    Sound { c with machine := { c.machine with objects } } where
  closed := closed
  inside := sound.inside
  known entry among := (sound.known entry among).mono follows.size_le
  live entry among left := by
    rw [handleOf_follows follows (sound.known entry among)]
    exact sound.live entry among left
  lost := sound.lost
  proxies := sound.proxies
  slots := sound.slots
  sound := sound.sound

theorem other (sound : c.Sound) {machine : Machine} (tables : machine.tables = c.machine.tables)
    (objects : machine.objects = c.machine.objects)
    (handles : machine.handles = c.machine.handles)
    (proxies : machine.proxies = c.machine.proxies) : Sound { c with machine } where
  closed := objects ▸ sound.closed
  inside := tables ▸ sound.inside
  known := objects ▸ sound.known
  live entry among left := by
    have handle := sound.live entry among left
    rw [Machine.handle?, Machine.handleOf] at handle ⊢
    rw [handles, proxies, objects, handle]
  lost := sound.lost
  proxies := proxies ▸ sound.proxies
  slots := proxies ▸ sound.slots
  sound := by
    rw [Machine.Sound, tables, handles, proxies]
    exact sound.sound

theorem enable (sound : c.Sound) :
    Sound
      { c with machine := { c.machine with handles := some (c.machine.handles.getD .empty) } } := by
  cases handles : c.machine.handles with
  | some slots =>
    rw [Option.getD_some, ← handles]
    exact sound
  | none =>
    -- Without a row of slots there was no proxy yet.
    have missing : ∀ id, c.machine.handle? id = none := by
      intro id
      unfold Machine.handle?
      rw [handles]
      cases c.machine.proxies.lookup id <;> rfl
    have empty : c.machine.proxies = [] := by
      refine List.eq_nil_iff_forall_not_mem.2 fun entry among => ?_
      obtain ⟨-, slots, found, -⟩ := sound.sound entry among
      cases handles.symm.trans found
    exact {
      closed := sound.closed
      inside := sound.inside
      known := sound.known
      live := fun entry among left => by
        cases (missing entry.1).symm.trans (sound.live entry among left)
      lost := sound.lost
      proxies := sound.proxies
      slots := sound.slots
      sound := fun entry among => absurd (empty ▸ among) List.not_mem_nil }

theorem proxy (sound : c.Sound) {id : TableId} {v : HostValue}
    (inside : id.index < c.machine.tables.size) (fresh : id ∉ c.everMade)
    (known : v.Known c.machine.objects.size) : (c.proxied id v).Sound where
  closed := sound.closed
  inside entry among := by
    rcases List.mem_append.1 among with among | among
    · exact sound.inside entry among
    · cases List.mem_singleton.1 among
      exact inside
  known entry among := by
    rcases List.mem_append.1 among with among | among
    · exact sound.known entry among
    · cases List.mem_singleton.1 among
      exact known
  live entry among left := by
    rcases List.mem_append.1 among with among | among
    · have different : entry.1 ≠ id := by
        intro same
        exact fresh (same ▸ List.mem_map_of_mem among)
      exact (sound.sound.handle?_marked different _).trans (sound.live entry among left)
    · cases List.mem_singleton.1 among
      exact c.machine.handle?_marked_self id _
  lost other gone := by
    rw [everMade_proxied]
    exact List.mem_append_left _ (sound.lost other gone)
  proxies entry among := by
    rw [everMade_proxied, List.mem_append]
    rcases List.mem_cons.1 among with rfl | among
    · exact ⟨.inr List.mem_cons_self, fun gone => fresh (sound.lost _ gone)⟩
    · obtain ⟨made, left⟩ := sound.proxies entry among
      exact ⟨.inl made, left⟩
  slots := by
    have proxies : (c.proxied id v).machine.proxies.map (·.2) =
        ((c.machine.handles.getD .empty).insert (c.machine.handleOf v)).1 ::
          c.machine.proxies.map (·.2) := rfl
    rw [proxies]
    refine List.nodup_cons.2 ⟨fun taken => ?_, sound.slots⟩
    obtain ⟨entry, among, same⟩ := List.mem_map.1 taken
    obtain ⟨-, slots, found, full⟩ := sound.sound entry among
    rw [same, found, Option.getD_some, Arena.insert_fresh] at full
    cases full
  sound := sound.sound.marked inside _

theorem collect (sound : c.Sound) (kept : TableId → Bool) : (c.collected kept).Sound where
  closed := sound.closed
  inside := sound.inside
  known := sound.known
  live entry among left := by
    have left : entry.1 ∉ c.lost ∧ kept entry.1 = true := by
      constructor
      · intro gone
        exact left (List.mem_append_left _ gone)
      · cases test : kept entry.1 with
        | true => rfl
        | false =>
          refine absurd (List.mem_append_right _ (List.mem_filter.2 ⟨?_, ?_⟩)) left
          · exact List.mem_map_of_mem among
          · rw [test]
            rfl
    exact (sound.handle?_keeping left.2).trans (sound.live entry among left.1)
  lost other gone := by
    rcases List.mem_append.1 gone with gone | gone
    · exact sound.lost other gone
    · exact List.mem_of_mem_filter gone
  proxies entry among := by
    obtain ⟨among, test⟩ := List.mem_filter.1 among
    obtain ⟨made, left⟩ := sound.proxies entry among
    refine ⟨made, fun gone => ?_⟩
    rcases List.mem_append.1 gone with gone | gone
    · exact left gone
    · have failed := (List.mem_filter.1 gone).2
      rw [test] at failed
      cases failed
  slots := sound.slots.sublist (List.filter_sublist.map _)
  sound entry among := by
    obtain ⟨among, test⟩ := List.mem_filter.1 among
    obtain ⟨inside, slots, found, full⟩ := sound.sound entry among
    refine ⟨inside, _, congrArg (Option.map _) found, ?_⟩
    rw [Arena.get?_releases (sound.not_dropped among test)]
    exact full

theorem step (sound : c.Sound) (step : Step c d) : d.Sound := by
  cases step with
  | newTable t => exact sound.newTable t
  | write tables size => exact sound.write size
  | host objects follows closed => exact sound.host follows closed
  | other machine tables objects handles proxies =>
    exact sound.other tables objects handles proxies
  | enable => exact sound.enable
  | proxy id v inside fresh known => exact sound.proxy inside fresh known
  | collect kept => exact sound.collect kept

theorem run (sound : c.Sound) (run : Run c d) : d.Sound := by
  induction run with
  | refl => exact sound
  | tail _ step ih => exact ih.step step

end Sound

/-- Objects stay, with their types. -/
theorem Step.follows (step : Step c d) : d.machine.objects.Follows c.machine.objects := by
  cases step with
  | host objects follows _ => exact follows
  | other machine _ objects _ _ =>
    dsimp only
    rw [objects]
    exact .refl _
  | _ => exact .refl _

theorem Run.follows (run : Run c d) : d.machine.objects.Follows c.machine.objects := by
  induction run with
  | refl => exact .refl _
  | tail _ step ih => exact step.follows.trans ih

end Chronicle

end ScriptHost
