import ScriptHost.Proofs.Outcome
import ScriptHost.Proofs.TableMap
import ScriptHost.Proofs.Texts
import ScriptHost.Proofs.Unfolding

/-!
# What a host value adds to the machine

A host value on its way to the scripts becomes scalars and tables that were not there before.  What
was there stays, and every new table holds scalars and younger tables only, so that no circle is
built.
-/

namespace ScriptHost

namespace Value

/-- A value without an identity. -/
def isScalar : Value → Bool
  | .nil | .bool _ | .int _ | .float _ | .str _ => true
  | _ => false

@[simp]
theorem isScalar_asKey (v : Value) : v.asKey.isScalar = v.isScalar := by
  cases v with
  | float x => cases integral : x.toInt64? <;> simp [asKey, isScalar, integral]
  | _ => rfl

@[simp]
theorem isScalar_ofBinary64 (x : Binary64) : (ofBinary64 x).isScalar := by
  cases integral : x.toInt64? <;> simp [ofBinary64, isScalar, integral]

end Value

namespace Table

@[simp]
theorem live_bare (length room : Nat) (metatable : Option TableId) :
    (bare length room metatable).live = [] := by
  refine List.eq_nil_iff_forall_not_mem.2 fun ⟨key, v⟩ inside => ?_
  obtain ⟨-, found, present⟩ := mem_live.1 inside
  rw [get_bare] at found
  exact present found.symm

end Table

namespace Machine

/-- Proxies are tables of the machine, and each one has a handle. -/
def Sound (s : Machine) : Prop :=
  ∀ entry ∈ s.proxies, entry.1.index < s.tables.size ∧
    ∃ slots, s.handles = some slots ∧ (slots.get? entry.2).isSome

/-- A scalar, or a table from one place on and before another. -/
def Within (low high : Nat) : Value → Prop
  | .table id => low ≤ id.index ∧ id.index < high
  | v => v.isScalar

/-- From some place on, tables hold scalars and younger tables only. -/
def Layered (s : Machine) (low : Nat) : Prop :=
  ∀ id : TableId, low ≤ id.index → ∀ pair ∈ s.pairsOf id,
    pair.1.isScalar ∧ Within (id.index + 1) s.tables.size pair.2

/-- A machine after it got new tables and objects, and perhaps entries in one of its tables. -/
structure Grown (id : TableId) (s t : Machine) : Prop where
  sound : t.Sound
  size_le : s.tables.size ≤ t.tables.size
  tables : ∀ other : TableId, other ≠ id → other.index < s.tables.size →
    t.tables[other.index]? = s.tables[other.index]?
  handles : ∀ other : TableId, other.index < s.tables.size → t.handle? other = s.handle? other
  objects : s.objects.Extends t.objects
  layered : ∀ low ≤ id.index, s.Layered low → t.Layered low

variable {s t u : Machine} {id : TableId} {v : Value} {low high : Nat}

theorem Within.of_isScalar (scalar : v.isScalar) : Within low high v := by
  cases v <;> first | exact scalar | cases scalar

theorem Within.widen {lower higher : Nat} (within : Within low high v) (below : lower ≤ low)
    (above : high ≤ higher) : Within lower higher v := by
  cases v <;> simp only [Within] at within ⊢ <;> first | exact within | omega

theorem pairsOf_congr {other : TableId}
    (same : t.tables[other.index]? = s.tables[other.index]?) : t.pairsOf other = s.pairsOf other := by
  rw [pairsOf, pairsOf, same]

/-- A change of one table leaves the others alone. -/
theorem getElem?_modify_of_ne {other : TableId} (different : other ≠ id) (f : Table → Table) :
    (s.tables.modify id.index f)[other.index]? = s.tables[other.index]? := by
  have apart : id.index ≠ other.index := by
    intro same
    cases id
    cases other
    exact different (congrArg TableId.mk same.symm)
  rw [Array.getElem?_modify, if_neg apart]

theorem pairsOf_of_size_le (beyond : s.tables.size ≤ id.index) : s.pairsOf id = [] := by
  rw [pairsOf, Array.getElem?_eq_none beyond]
  exact Table.live_bare 0 0 none

theorem layered_size (s : Machine) : s.Layered s.tables.size := by
  intro id beyond pair inside
  rw [pairsOf_of_size_le beyond] at inside
  cases inside

theorem Sound.handle_eq_none (sound : s.Sound) (beyond : s.tables.size ≤ id.index) :
    s.handle? id = none := by
  have absent : s.proxies.lookup id = none := by
    rw [List.lookup_eq_none_iff]
    intro entry inside
    have within := (sound entry inside).1
    have different : id ≠ entry.1 := by
      rintro rfl
      omega
    simpa using different
  simp [handle?, absent]

namespace Grown

theorem refl (sound : s.Sound) : Grown id s s :=
  ⟨sound, Nat.le_refl _, fun _ _ _ => rfl, fun _ _ => rfl, .refl _, fun _ _ layered => layered⟩

theorem trans (first : Grown id s t) (second : Grown id t u) : Grown id s u where
  sound := second.sound
  size_le := Nat.le_trans first.size_le second.size_le
  tables other different inside :=
    (second.tables other different (Nat.lt_of_lt_of_le inside first.size_le)).trans
      (first.tables other different inside)
  handles other inside :=
    (second.handles other (Nat.lt_of_lt_of_le inside first.size_le)).trans
      (first.handles other inside)
  objects := first.objects.trans second.objects
  layered low below layered := second.layered low below (first.layered low below layered)

/-- Growth that changes a new table at most leaves any other one out as well. -/
theorem apart {other : TableId} (grown : Grown id s t) (new : s.tables.size ≤ id.index)
    (below : other.index ≤ id.index) : Grown other s t where
  sound := grown.sound
  size_le := grown.size_le
  tables third _ inside := grown.tables third (by rintro rfl; omega) inside
  handles := grown.handles
  objects := grown.objects
  layered low bound layered := grown.layered low (Nat.le_trans bound below) layered

theorem newTable (sound : s.Sound) {table : Table} (empty : table.live = []) :
    Grown ⟨s.tables.size⟩ s { s with tables := s.tables.push table } where
  sound entry inside := by
    obtain ⟨within, handle⟩ := sound entry inside
    exact ⟨by simpa using Nat.lt_succ_of_lt within, handle⟩
  size_le := by simp
  tables other _ inside := by simp [Array.getElem?_push, Nat.ne_of_lt inside]
  handles _ _ := rfl
  objects := .refl _
  layered low _ layered id beyond pair inside := by
    simp only [pairsOf, Array.getElem?_push] at inside
    split at inside
    · simp [empty] at inside
    · obtain ⟨scalar, within⟩ := layered id beyond pair inside
      exact ⟨scalar, within.widen (Nat.le_refl _) (by simp)⟩

theorem rawSet (sound : s.Sound) (key : v.isScalar) {w : Value}
    (within : Within (id.index + 1) s.tables.size w) :
    Grown id s { s with tables := s.tables.modify id.index (·.set v w) } where
  sound entry inside := by simpa using sound entry inside
  size_le := by simp
  tables _ different _ := getElem?_modify_of_ne different _
  handles _ _ := rfl
  objects := .refl _
  layered low _ layered other beyond pair inside := by
    simp only [pairsOf, Array.getElem?_modify] at inside
    rw [Array.size_modify]
    split at inside
    · next same =>
      cases there : s.tables[other.index]? with
      | none => simp [there, default, Table.empty] at inside
      | some table =>
        simp only [there, Option.map_some, Option.getD_some] at inside
        obtain ⟨final, found, present⟩ := Table.mem_live.1 inside
        rw [Table.get_set] at found
        split at found
        · next sameKey =>
          refine ⟨?_, found ▸ same ▸ within⟩
          rwa [← final, sameKey, Value.isScalar_asKey]
        · exact layered other beyond pair
            (by simpa [pairsOf, there] using Table.mem_live.2 ⟨final, found, present⟩)
    · exact layered other beyond pair inside

theorem withObjects (sound : s.Sound) {objects : Objects} (later : s.objects.Extends objects) :
    Grown id s { s with objects } where
  sound := sound
  size_le := Nat.le_refl _
  tables _ _ _ := rfl
  handles _ _ := rfl
  objects := later
  layered _ _ layered := layered

end Grown

/-! ## Proxies -/

/-- The machine after a table became a proxy. -/
def marked (s : Machine) (id : TableId) (handle : Handle) : Machine :=
  let (slot, handles) := (s.handles.getD .empty).insert handle
  { s with handles := some handles, proxies := (id, slot) :: s.proxies }

theorem handle?_marked_self (s : Machine) (id : TableId) (handle : Handle) :
    (s.marked id handle).handle? id = some handle := by
  simp [handle?, marked, Arena.get?_insert_self]

/-- A slot that has a handle is not given away. -/
theorem handle?_marked_of_some {other : TableId} {handle : Handle}
    (found : s.handle? other = some handle) (different : other ≠ id) (new : Handle) :
    (s.marked id new).handle? other = some handle := by
  obtain ⟨slot, there, slots, ready, full⟩ : ∃ slot, s.proxies.lookup other = some slot ∧
      ∃ slots, s.handles = some slots ∧ slots.get? slot = some handle := by
    simpa [handle?, Option.bind_eq_some_iff] using found
  have free : slot ≠ (slots.insert new).1 := by
    rintro rfl
    rw [Arena.insert_fresh] at full
    cases full
  have apart : (other == id) = false := by simpa using different
  simp [handle?, marked, ready, List.lookup_cons, apart, there, Arena.get?_insert_of_ne free, full]

/-- A new proxy leaves the others as they are, since its slot was free. -/
theorem Sound.handle?_marked (sound : s.Sound) {other : TableId} (different : other ≠ id)
    (handle : Handle) : (s.marked id handle).handle? other = s.handle? other := by
  have lookup : (s.marked id handle).proxies.lookup other = s.proxies.lookup other := by
    have apart : (other == id) = false := by simpa using different
    simp [marked, List.lookup_cons, apart]
  cases there : s.proxies.lookup other with
  | none => simp [handle?, lookup, there]
  | some slot =>
    obtain ⟨before, after, entries, -⟩ := List.lookup_eq_some_iff.1 there
    obtain ⟨-, slots, ready, full⟩ := sound (other, slot) (by simp [entries])
    obtain ⟨known, full⟩ := Option.isSome_iff_exists.1 full
    have found : s.handle? other = some known := by simp [handle?, there, ready, full]
    rw [handle?_marked_of_some found different, found]

theorem Sound.marked (sound : s.Sound) (inside : id.index < s.tables.size) (handle : Handle) :
    (s.marked id handle).Sound := by
  have handles : (s.marked id handle).handles =
      some ((s.handles.getD .empty).insert handle).2 := rfl
  have proxies : (s.marked id handle).proxies =
      (id, ((s.handles.getD .empty).insert handle).1) :: s.proxies := rfl
  intro entry among
  rw [proxies] at among
  rcases List.mem_cons.1 among with rfl | among
  · refine ⟨inside, _, handles, ?_⟩
    rw [Arena.get?_insert_self]
    rfl
  · obtain ⟨within, slots, found, full⟩ := sound entry among
    refine ⟨within, _, handles, ?_⟩
    by_cases same : entry.2 = ((s.handles.getD .empty).insert handle).1
    · rw [same, Arena.get?_insert_self]
      rfl
    · rw [Arena.get?_insert_of_ne same]
      simpa [found] using full

theorem Grown.marked (grown : Grown ⟨s.tables.size⟩ s t) (new : s.tables.size ≤ id.index)
    (inside : id.index < t.tables.size) (handle : Handle) :
    Grown ⟨s.tables.size⟩ s (t.marked id handle) where
  sound := grown.sound.marked inside handle
  size_le := grown.size_le
  tables := grown.tables
  handles other old :=
    (grown.sound.handle?_marked (by rintro rfl; omega) handle).trans (grown.handles other old)
  objects := grown.objects
  layered := grown.layered

end Machine

namespace Crossing

open Machine MachineM

theorem runOn_markProxy (id : TableId) (handle : Handle) (s : Machine) :
    (markProxy id handle).runOn s = (.ok (), s.marked id handle) := rfl

/-- A computation whose results are scalars or new tables, and which adds to the machine only. -/
def Makes (m : CrossingM Value) : Prop :=
  ∀ s w t, s.Sound → m.runOn s = (.ok w, t) →
    Grown ⟨s.tables.size⟩ s t ∧ Within s.tables.size t.tables.size w

/-- A computation that adds to the machine only, and otherwise sets entries of one table. -/
def Fills (id : TableId) (m : CrossingM Unit) : Prop :=
  ∀ s t, s.Sound → id.index < s.tables.size → m.runOn s = (.ok (), t) → Grown id s t

variable {id : TableId}

theorem makes_scalar {w : Value} (scalar : w.isScalar) : Makes (pure w) := by
  intro s v t sound run
  cases run
  exact ⟨.refl sound, .of_isScalar scalar⟩

theorem fills_nothing (id : TableId) : Fills id (pure ()) := by
  intro s t sound inside run
  cases run
  exact .refl sound

theorem Makes.fills {m : CrossingM Value} (makes : Makes m) {key : Value} (scalar : key.isScalar)
    {rest : CrossingM Unit} (fills : Fills id rest) :
    Fills id (do rawSet id key (← m); rest) := by
  intro s u sound inside run
  obtain ⟨w, t, made, run⟩ := runOn_bind_eq_ok.1 run
  obtain ⟨grown, within⟩ := makes s w t sound made
  have before := grown.apart (Nat.le_refl _) (Nat.le_of_lt inside)
  rw [runOn_bind_ok (runOn_rawSet id key w t)] at run
  have set := Grown.rawSet grown.sound scalar (within.widen inside (Nat.le_refl _))
  have still := Nat.lt_of_lt_of_le inside before.size_le
  exact (before.trans set).trans (fills _ u set.sound (by simpa using still) run)

theorem makes_table {table : Table} (empty : table.live = []) {fill : TableId → CrossingM Unit}
    (fills : ∀ id, Fills id (fill id)) :
    Makes (do let id ← newTable table; fill id; return .table id) := by
  intro s w u sound run
  rw [runOn_bind_ok (runOn_newTable table s)] at run
  obtain ⟨_, t, filled, done⟩ := runOn_bind_eq_ok.1 run
  obtain ⟨rfl, rfl⟩ : Value.table ⟨s.tables.size⟩ = w ∧ t = u := by simpa using done
  have start := Grown.newTable sound empty
  have grown := fills _ _ t start.sound (by simp) filled
  exact ⟨start.trans grown, Nat.le_refl _, Nat.lt_of_lt_of_le (by simp) grown.size_le⟩

theorem runOn_pointer (target : Option ObjectId) (s : Machine) :
    (do return .table (← proxyOfPointer target) : CrossingM Value).runOn s =
      (.ok (.table ⟨s.tables.size⟩),
        { s with tables := s.tables.push .empty }.marked ⟨s.tables.size⟩
          ⟨.ptr target, target.map fun o => (s.objects.get o).shape⟩) := rfl

theorem makes_pointer (target : Option ObjectId) :
    Makes (do return .table (← proxyOfPointer target)) := by
  intro s w t sound run
  have start : Grown ⟨s.tables.size⟩ s { s with tables := s.tables.push .empty } :=
    .newTable sound (Table.live_bare 0 0 none)
  rw [runOn_pointer] at run
  cases run
  exact ⟨start.marked (Nat.le_refl _) (by simp) _, Nat.le_refl _, by simp [Machine.marked]⟩

theorem Fills.after {α : Type} {m : CrossingM α} {rest : α → CrossingM Unit}
    (first : ∀ s a t, s.Sound → m.runOn s = (.ok a, t) → s = t ∧ Fills id (rest a)) :
    Fills id (m >>= rest) := by
  intro s u sound inside run
  obtain ⟨a, t, run, done⟩ := runOn_bind_eq_ok.1 run
  obtain ⟨rfl, fills⟩ := first s a t sound run
  exact fills s u sound inside done

/-- A key is a scalar, and finding it adds nothing. -/
theorem runOn_key_ok {v : HostValue} {s t : Machine} {k : Value}
    (run : (key v).runOn s = (.ok k, t)) : t = s ∧ k.isScalar := by
  cases v with
  | nil => cases run
  | bool | int | str =>
    cases run
    exact ⟨rfl, rfl⟩
  | float x =>
    rw [key] at run
    split at run
    · cases run
    · cases run
      exact ⟨rfl, Value.isScalar_ofBinary64 x⟩
  | ptr target =>
    cases target with
    | none => cases run
    | some o =>
      obtain ⟨text, u, found, done⟩ := runOn_bind_eq_ok.1 run
      cases done
      exact ⟨(runOn_textKey_ok found).1, rfl⟩
  | _ =>
    obtain ⟨text, u, found, done⟩ := runOn_bind_eq_ok.1 run
    cases done
    exact ⟨(runOn_textKey_ok found).1, rfl⟩

/-! ## Host values -/

section

variable {object : ObjectId → CrossingM Value}

mutual

theorem value_makes (makes : ∀ o, Makes (object o)) : ∀ v : HostValue, Makes (value object v)
  | .nil | .bool _ | .int _ | .str _ => makes_scalar rfl
  | .float x => makes_scalar (Value.isScalar_ofBinary64 x)
  | .list items => makes_table (Table.live_bare _ _ _) fun id => putItems_fills makes id 1 items
  | .map pairs => makes_table (Table.live_bare _ _ _) fun id => putPairs_fills makes id pairs
  | .struct o => makes o
  | .ptr target => makes_pointer target
  | .foreign _ => fun _ _ _ _ run => nomatch run

theorem putItems_fills (makes : ∀ o, Makes (object o)) (id : TableId) (index : Nat) :
    ∀ items : List HostValue, Fills id (putItems object id index items)
  | [] => fills_nothing id
  | item :: rest => (value_makes makes item).fills rfl (putItems_fills makes id (index + 1) rest)

theorem putPairs_fills (makes : ∀ o, Makes (object o)) (id : TableId) :
    ∀ pairs : List (HostValue × HostValue), Fills id (putPairs object id pairs)
  | [] => fills_nothing id
  | (_, item) :: rest => Fills.after fun _ _ _ _ run =>
    have ⟨same, scalar⟩ := runOn_key_ok run
    ⟨same.symm, (value_makes makes item).fills scalar (putPairs_fills makes id rest)⟩

end

theorem makes_record (shape : Shape) (data : List Datum)
    (fills : ∀ id, Fills id (putFields object id shape.fields data)) :
    Makes (datum object (.record shape data)) := by
  intro s w u sound run
  have first : (onObjects .host (HostM.newObject shape data) : CrossingM ObjectId).runOn s =
      (.ok (s.objects.add { shape, fields := data }).1,
        { s with objects := (s.objects.add { shape, fields := data }).2 }) := rfl
  rw [datum, runOn_bind_ok first, runOn_bind_ok (runOn_newTable _ _)] at run
  obtain ⟨_, t, filled, done⟩ := runOn_bind_eq_ok.1 run
  rw [runOn_bind_ok (runOn_markProxy _ _ t)] at done
  cases done
  have copied : Grown ⟨s.tables.size⟩ s
      { s with objects := (s.objects.add { shape, fields := data }).2 } :=
    .withObjects sound (.push _ _)
  have start := copied.trans (.newTable copied.sound (Table.live_bare 0 0 none))
  have grown := start.trans (fills _ _ t start.sound (by simp) filled)
  have inside : s.tables.size < t.tables.size :=
    Nat.lt_of_lt_of_le (by simp) (fills _ _ t start.sound (by simp) filled).size_le
  exact ⟨grown.marked (Nat.le_refl _) inside _, Nat.le_refl _, inside⟩

mutual

theorem datum_makes (makes : ∀ o, Makes (object o)) : ∀ d : Datum, Makes (datum object d)
  | .bool _ | .int _ | .size _ | .text _ | .absent => makes_scalar rfl
  | .float x => makes_scalar (Value.isScalar_ofBinary64 x)
  | .object o => makes_pointer (some o)
  | .any v => value_makes makes v
  | .record shape data => makes_record shape data fun id => putFields_fills makes id shape.fields data
  | .present content => datum_makes makes content
  | .list items => makes_table (Table.live_bare _ _ _) fun id => putData_fills makes id 1 items
  | .map items => makes_table (Table.live_bare _ _ _) fun id => putEntries_fills makes id items

theorem putData_fills (makes : ∀ o, Makes (object o)) (id : TableId) (index : Nat) :
    ∀ items : List Datum, Fills id (putData object id index items)
  | [] => fills_nothing id
  | item :: rest => (datum_makes makes item).fills rfl (putData_fills makes id (index + 1) rest)

theorem putEntries_fills (makes : ∀ o, Makes (object o)) (id : TableId) :
    ∀ items : List (String × Datum), Fills id (putEntries object id items)
  | [] => fills_nothing id
  | (_, item) :: rest => (datum_makes makes item).fills rfl (putEntries_fills makes id rest)

theorem putFields_fills (makes : ∀ o, Makes (object o)) (id : TableId) :
    ∀ (declared : List Field) (data : List Datum), Fills id (putFields object id declared data)
  | _, [] => by
    rw [putFields]
    exact fills_nothing id
  | [], _ :: _ => fills_nothing id
  | field :: declared, item :: rest => by
    rw [putFields]
    split
    · exact (datum_makes makes item).fills rfl (putFields_fills makes id declared rest)
    · exact putFields_fills makes id declared rest

end

theorem runOn_readable (o : ObjectId) (s : Machine) :
    (onObjects .host (HostM.readable o) : CrossingM Instance).runOn s =
      (if (s.objects.get o).hold = .exclusive then
        .error (.error (.host (.busy (s.objects.get o).shape.name)))
      else .ok (s.objects.get o), s) := by
  have outcome : (HostM.readable o).run.run s.objects =
      if (s.objects.get o).hold = .exclusive then
        (.error (.error (.busy (s.objects.get o).shape.name)), s.objects)
      else (.ok (s.objects.get o), s.objects) := by
    change (if (s.objects.get o).hold = .exclusive then HostM.fail _ else pure (s.objects.get o) :
      HostM Instance).run.run s.objects = _
    split <;> rfl
  rw [runOn_onObjects, outcome]
  split <;> rfl

theorem runOn_readable_ok {o : ObjectId} {s t : Machine} {i : Instance}
    (run : (onObjects .host (HostM.readable o) : CrossingM Instance).runOn s = (.ok i, t)) :
    t = s := by
  rw [runOn_readable] at run
  exact (congrArg Prod.snd run).symm

theorem putObject_fills (makes : ∀ o, Makes (object o)) (id : TableId) (o : ObjectId) :
    Fills id (putObject object id o) := by
  exact Fills.after fun s i t _ run =>
    ⟨(runOn_readable_ok run).symm, putFields_fills makes id i.shape.fields i.fields⟩

end

/-- A structure becomes a proxy, which adds to the machine only. -/
theorem proxyOfStruct_makes (depth : Nat) (o : ObjectId) : Makes (proxyOfStruct depth o) := by
  induction depth generalizing o with
  | zero => exact fun _ _ _ _ run => nomatch run
  | succ depth ih =>
    intro s w u sound run
    rw [proxyOfStruct, runOn_bind_ok (runOn_newTable _ _)] at run
    obtain ⟨_, t, filled, done⟩ := runOn_bind_eq_ok.1 run
    cases done
    have start := Grown.newTable sound (Table.live_bare 0 0 none)
    have rest := putObject_fills ih _ o _ t start.sound (by simp) filled
    have inside : s.tables.size < t.tables.size := Nat.lt_of_lt_of_le (by simp) rest.size_le
    exact ⟨(start.trans rest).marked (Nat.le_refl _) inside _, Nat.le_refl _, inside⟩

theorem structure?_makes (o : ObjectId) : Makes (structure? o) := by
  intro s w t sound run
  exact proxyOfStruct_makes s.objects.size o s w t sound run

end Crossing

end ScriptHost
