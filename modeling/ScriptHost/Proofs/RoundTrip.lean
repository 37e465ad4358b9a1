import ScriptHost.Proofs.HostGraphs
import ScriptHost.Proofs.Mirroring

/-!
# From the host to the scripts and back

A host value that became a script value comes back in its normal form, up to the order of the pairs
in maps, unless the normal form is too high.  The conversion to the scripts is followed step by
step: each table is filled with rows, each of which mirrors a normal form.
-/

namespace ScriptHost

namespace Machine

open HostValue

variable {α : Type} {R : Machine → Value → α → Prop} {s t u : Machine} {id : TableId}

/-- A table of a later machine that got pairs, whose values are related to those of the entries. -/
structure Filled (R : Machine → Value → α → Prop) (id : TableId) (s t : Machine)
    (entries : List (Value × α)) : Prop where
  grown : Grown id s t
  rows : ∃ rows : List (Value × α × Value), rows.map (fun row => (row.1, row.2.1)) = entries ∧
    t.tables[id.index]? = s.tables[id.index]?.map (fun table =>
      (rows.map fun row => (row.1, row.2.2)).foldl (fun t pair => t.set pair.1 pair.2) table) ∧
    ∀ row ∈ rows, R t row.2.2 row.2.1

theorem Filled.nothing (sound : s.Sound) : Filled R id s s [] :=
  ⟨.refl sound, [], rfl, by simp, by simp⟩

/-- What was just made keeps its region while an older table is filled. -/
theorem Grown.agree (made : Grown ⟨s.tables.size⟩ s t) (older : id.index < s.tables.size)
    (later : Grown id t u) : t.Agree u s.tables.size t.tables.size := by
  intro other above below
  have different : other ≠ id := by
    rintro rfl
    omega
  refine ⟨pairsOf_congr (later.tables other different below), later.handles other below, ?_⟩
  intro pair inside
  obtain ⟨scalar, within⟩ :=
    made.layered s.tables.size (Nat.le_refl _) s.layered_size other above pair inside
  exact ⟨scalar, within.widen (by omega) (Nat.le_refl _)⟩

/-- One more pair in front of those that are set later. -/
theorem Filled.cons {key w : Value} {a : α} {entries : List (Value × α)} (scalar : key.isScalar)
    (older : id.index < s.tables.size) (made : Grown ⟨s.tables.size⟩ s t)
    (within : Within s.tables.size t.tables.size w)
    (related : ∀ later, t.Agree later s.tables.size t.tables.size → R later w a)
    (filled : Filled R id { t with tables := t.tables.modify id.index (·.set key w) } u entries) :
    Filled R id s u ((key, a) :: entries) := by
  have before := made.apart (Nat.le_refl _) (Nat.le_of_lt older)
  have set : Grown id t { t with tables := t.tables.modify id.index (·.set key w) } :=
    .rawSet made.sound scalar (within.widen older (Nat.le_refl _))
  refine ⟨before.trans (set.trans filled.grown), ?_⟩
  obtain ⟨rows, rfl, content, each⟩ := filled.rows
  refine ⟨(key, a, w) :: rows, rfl, ?_, List.forall_mem_cons.2 ⟨?_, each⟩⟩
  · have same : t.tables[id.index]? = s.tables[id.index]? :=
      made.tables id (by rintro rfl; exact absurd older (Nat.lt_irrefl _)) older
    rw [content, Array.getElem?_modify, if_pos rfl, same, Option.map_map]
    rfl
  · exact related u (made.agree older (set.trans filled.grown))

/-- A new table that was filled is no proxy. -/
theorem Filled.plain {table : Table} {entries : List (Value × α)} (sound : s.Sound)
    (filled : Filled R ⟨s.tables.size⟩ { s with tables := s.tables.push table } t entries) :
    t.Plain ⟨s.tables.size⟩ := by
  have handle := filled.grown.handles ⟨s.tables.size⟩ (by simp)
  have none : s.handle? ⟨s.tables.size⟩ = none := sound.handle_eq_none (Nat.le_refl _)
  rw [Plain, Machine.unwrap?, handle]
  change (s.handle? _).map _ = _
  rw [none]
  rfl

/-- A script value that mirrors a normal form, which is nil where it is. -/
def Mirrored (s : Machine) (w : Value) (h : HostValue) : Prop := s.Mirrors w h ∧ w.isNil = h.isNil

theorem Mirrored.agree {w : Value} {h : HostValue} {low high : Nat} (mirrored : s.Mirrored w h)
    (agree : s.Agree t low high) (within : Within low high w) : t.Mirrored w h :=
  ⟨mirrored.1.agree agree within, mirrored.2⟩

/-- A new table that was filled mirrors what its entries are gathered to. -/
theorem Filled.mirrors {table : Table} {entries : List (Value × HostValue)}
    (empty : ∀ key, table.get key = .nil) (sound : s.Sound)
    (filled : Filled Mirrored ⟨s.tables.size⟩ { s with tables := s.tables.push table } t entries)
    (keys : ∀ entry ∈ entries, entry.1.isScalar ∧ entry.1.asKey = entry.1 ∧ entry.1 ≠ .nil) :
    t.Mirrors (.table ⟨s.tables.size⟩) (gathered (survivors isNil entries)) := by
  have plain := filled.plain sound
  obtain ⟨rows, rfl, content, each⟩ := filled.rows
  have final : ∀ pair ∈ rows.map (fun row => (row.1, row.2.2)), pair.1.asKey = pair.1 := by
    refine List.forall_mem_map.2 fun row inside => ?_
    exact (keys _ (List.mem_map_of_mem inside)).2.1
  have normals : survivors HostValue.isNil (rows.map fun row => (row.1, row.2.1)) =
      (survivors (fun pair => pair.1.isNil) rows).map fun row => (row.1, row.2.1) :=
    survivors_map Prod.fst fun _ _ => rfl
  have values : survivors Value.isNil (rows.map fun row => (row.1, row.2.2)) =
      (survivors (fun pair => pair.1.isNil) rows).map fun row => (row.1, row.2.2) :=
    survivors_map Prod.snd fun row inside => (each row inside).2
  have pairs : (t.pairsOf ⟨s.tables.size⟩).Perm
      (survivors Value.isNil (rows.map fun row => (row.1, row.2.2))) := by
    refine (List.perm_ext_iff_of_nodup ?_ ?_).2 ?_
    · exact (Table.live_keys_nodup _).of_map
    · exact (survivors_keys_nodup _).of_map
    · rintro ⟨key, v⟩
      rw [mem_survivors final, pairsOf, Table.mem_live, content]
      simp [Table.get_foldl_set, empty]
  rw [normals]
  refine Kept.mirrors (fun row inside => ?_) plain (values ▸ pairs)
  have among := mem_of_mem_survivors inside
  obtain ⟨scalar, keyFinal, present⟩ := keys _ (List.mem_map_of_mem among)
  exact ⟨scalar, keyFinal, present, (each row among).1⟩

end Machine

namespace Crossing

open Machine MachineM HostValue

/-- The texts of a machine are among those given. -/
def TextsIn (s : Machine) (text : HostValue → Option String) : Prop :=
  ∀ v, Render.Keeps (s.objects.text v) (text v)

variable {text : HostValue → Option String}

theorem TextsIn.earlier {id : TableId} {s t : Machine} (texts : TextsIn t text)
    (grown : Grown id s t) : TextsIn s text :=
  fun v shown found => texts v shown (grown.objects.text v shown found)

theorem key_eq_scriptKey {v : HostValue} {s t : Machine} {k : Value} (texts : TextsIn s text)
    (run : (key v).runOn s = (.ok k, t)) :
    k = scriptKey text v ∧ k.asKey = k ∧ k ≠ .nil := by
  have compound {h : HostValue} {u : Machine}
      (run : (do return .text (← textKey h) : CrossingM Value).runOn s = (.ok k, u)) :
      k = .text ((text h).getD "") ∧ k.asKey = k ∧ k ≠ .nil := by
    obtain ⟨shown, _, found, done⟩ := runOn_bind_eq_ok.1 run
    cases done
    rw [texts h shown (runOn_textKey_ok found).2]
    exact ⟨rfl, rfl, nofun⟩
  cases v with
  | nil => cases run
  | bool | int | str =>
    cases run
    exact ⟨rfl, rfl, nofun⟩
  | float x =>
    rw [key] at run
    split at run
    · cases run
    · cases run
      exact ⟨rfl, Value.asKey_ofBinary64 x, Value.ofBinary64_ne_nil x⟩
  | ptr target =>
    cases target with
    | none => cases run
    | some o => exact compound run
  | _ => exact compound run

section

variable {object : ObjectId → CrossingM Value}

/-- Structures become proxies that stand for them. -/
def Stands (object : ObjectId → CrossingM Value) : Prop :=
  ∀ o s w t, s.Sound → (object o).runOn s = (.ok w, t) →
    ∃ id, w = .table id ∧ t.unwrap? id = some (.struct o)

mutual

/-- A host value is mirrored in its normal form. -/
theorem value_mirrors (makes : ∀ o, Makes (object o)) (stands : Stands object)
    {s t : Machine} {w : Value} (sound : s.Sound) (texts : TextsIn t text) :
    ∀ v : HostValue, v.Fits → (value object v).runOn s = (.ok w, t) →
      t.Mirrored w (normal text v)
  | .nil, _, run => by
    cases run
    exact ⟨.of_ne_table nofun .nil rfl, rfl⟩
  | .bool b, _, run => by
    cases run
    exact ⟨.of_ne_table nofun (.bool b) rfl, rfl⟩
  | .int i, _, run => by
    cases run
    exact ⟨.of_ne_table nofun (.int i) rfl, rfl⟩
  | .float x, _, run => by
    cases run
    rw [normal, Value.ofBinary64]
    cases integral : x.toInt64? with
    | some i => exact ⟨.of_ne_table nofun (.int i) rfl, rfl⟩
    | none => exact ⟨.of_ne_table nofun (.float integral) rfl, rfl⟩
  | .str string, _, run => by
    cases run
    have unfolds : s.Unfolds (.text string) (.str (Utf8.decode string.toByteArray)) := .str _
    rw [Utf8.decode_toByteArray] at unfolds
    exact ⟨.of_ne_table nofun unfolds rfl, rfl⟩
  | .list items, fits, run => by
    obtain ⟨few, fits⟩ := fits
    rw [value, runOn_bind_ok (runOn_newTable _ s)] at run
    obtain ⟨_, u, filled, done⟩ := runOn_bind_eq_ok.1 run
    obtain ⟨rfl, rfl⟩ : Value.table ⟨s.tables.size⟩ = w ∧ u = t := by simpa using done
    have start := Grown.newTable sound (Table.live_bare items.length 0 none)
    have rows := putItems_filled makes stands ⟨s.tables.size⟩ 1 start.sound (by simp) texts items
      fits filled
    have mirrors := rows.mirrors (Table.get_bare _ _ _) sound fun entry inside => by
      obtain ⟨i, integer⟩ := numbered_keys inside
      rw [integer]
      exact ⟨rfl, rfl, nofun⟩
    rw [gathered_numbered (by rwa [length_normalItems])] at mirrors
    exact ⟨mirrors, rfl⟩
  | .map pairs, fits, run => by
    rw [value, runOn_bind_ok (runOn_newTable _ s)] at run
    obtain ⟨_, u, filled, done⟩ := runOn_bind_eq_ok.1 run
    obtain ⟨rfl, rfl⟩ : Value.table ⟨s.tables.size⟩ = w ∧ u = t := by simpa using done
    have start := Grown.newTable sound (Table.live_bare 0 0 none)
    obtain ⟨rows, keys⟩ := putPairs_filled makes stands ⟨s.tables.size⟩ start.sound (by simp) texts
      pairs fits filled
    exact ⟨rows.mirrors (Table.get_bare _ _ _) sound keys, (isNil_gathered _).symm⟩
  | .struct o, _, run => by
    obtain ⟨id, rfl, found⟩ := stands o s w t sound run
    exact ⟨.proxy found rfl, rfl⟩
  | .ptr target, _, run => by
    rw [value, runOn_pointer] at run
    cases run
    refine ⟨.proxy ?_ rfl, rfl⟩
    rw [Machine.unwrap?, handle?_marked_self]
    rfl
  | .foreign _, _, run => nomatch run

theorem putItems_filled (makes : ∀ o, Makes (object o)) (stands : Stands object) (id : TableId)
    (index : Nat) {s t : Machine} (sound : s.Sound) (older : id.index < s.tables.size)
    (texts : TextsIn t text) :
    ∀ items : List HostValue, FitsAll items → (putItems object id index items).runOn s = (.ok (), t) →
      Filled Mirrored id s t (numbered index (normalItems text items))
  | [], _, run => by
    cases run
    exact .nothing sound
  | item :: rest, fits, run => by
    obtain ⟨w, u, made, run⟩ := runOn_bind_eq_ok.1 run
    obtain ⟨grown, within⟩ := value_makes makes item s w u sound made
    rw [runOn_bind_ok (runOn_rawSet id _ w u)] at run
    have set := Grown.rawSet grown.sound (v := .int (.ofNat index)) rfl
      (within.widen older (Nat.le_refl _))
    have inside := Nat.lt_of_lt_of_le older (grown.apart (Nat.le_refl _) (Nat.le_of_lt older)).size_le
    have filled := putItems_filled makes stands id (index + 1) set.sound (by simpa using inside) texts
      rest fits.2 run
    have mirrored := value_mirrors makes stands sound
      ((texts.earlier filled.grown).earlier set) item fits.1 made
    exact filled.cons rfl older grown within (fun _ agree => mirrored.agree agree within)

theorem putPairs_filled (makes : ∀ o, Makes (object o)) (stands : Stands object) (id : TableId)
    {s t : Machine} (sound : s.Sound) (older : id.index < s.tables.size) (texts : TextsIn t text) :
    ∀ pairs : List (HostValue × HostValue), FitsPairs pairs →
      (putPairs object id pairs).runOn s = (.ok (), t) →
      Filled Mirrored id s t (normalPairs text pairs) ∧
        ∀ entry ∈ normalPairs text pairs,
          entry.1.isScalar ∧ entry.1.asKey = entry.1 ∧ entry.1 ≠ .nil
  | [], _, run => by
    cases run
    exact ⟨.nothing sound, nofun⟩
  | (k, item) :: rest, fits, run => by
    obtain ⟨final, m, found, valued⟩ := runOn_bind_eq_ok.1 run
    obtain ⟨rfl, scalar⟩ := runOn_key_ok found
    obtain ⟨w, u, made, others⟩ := runOn_bind_eq_ok.1 valued
    obtain ⟨grown, within⟩ := value_makes makes item _ w u sound made
    rw [runOn_bind_ok (runOn_rawSet id _ w u)] at others
    have set := Grown.rawSet grown.sound scalar (within.widen older (Nat.le_refl _))
    have inside := Nat.lt_of_lt_of_le older (grown.apart (Nat.le_refl _) (Nat.le_of_lt older)).size_le
    obtain ⟨filled, keys⟩ := putPairs_filled makes stands id set.sound (by simpa using inside) texts
      rest fits.2 others
    have now := (texts.earlier filled.grown).earlier set
    have mirrored := value_mirrors makes stands sound now item fits.1 made
    obtain ⟨rfl, isFinal, present⟩ := key_eq_scriptKey
      (now.earlier (grown.apart (Nat.le_refl _) (Nat.le_of_lt older))) found
    exact ⟨filled.cons scalar older grown within fun _ agree => mirrored.agree agree within,
      List.forall_mem_cons.2 ⟨⟨scalar, isFinal, present⟩, keys⟩⟩

end

end

/-- The proxy of a structure stands for the structure. -/
theorem stands_structure? : Stands structure? := by
  intro o s w t sound run
  rw [structure?, runOn_bind_ok (runOn_get s)] at run
  cases depth : s.objects.size with
  | zero =>
    rw [depth] at run
    cases run
  | succ depth' =>
    rw [depth, proxyOfStruct, runOn_bind_ok (runOn_newTable _ _)] at run
    obtain ⟨_, u, filled, done⟩ := runOn_bind_eq_ok.1 run
    cases done
    refine ⟨_, rfl, ?_⟩
    rw [Machine.unwrap?]
    exact congrArg (Option.map (·.value)) (handle?_marked_self _ _ _)

section

variable {s t : Machine} {v : HostValue} {w : Value}

/-- What became of a host value reaches the host without trouble. -/
theorem calm_of_within (layered : t.Layered s.tables.size)
    (within : Within s.tables.size t.tables.size w) : t.Calm w := by
  have region : t.Agree t s.tables.size t.tables.size := fun id above _ =>
    ⟨rfl, rfl, fun pair inside =>
      have ⟨scalar, held⟩ := layered id above pair inside
      ⟨scalar, held.widen (Nat.le_succ_of_le above) (Nat.le_refl _)⟩⟩
  refine calm_of_pairs fun id reaches pair inside => ?_
  obtain ⟨chain, isChain, among⟩ := reaches
  obtain ⟨above, below⟩ := (region.chain within isChain).2 id among
  obtain ⟨scalar, held⟩ := (region id above below).2.2 pair inside
  refine ⟨fun other same => ?_, fun i same => ?_, fun i same => ?_⟩
  · rw [same] at scalar
    cases scalar
  · rw [same] at scalar
    cases scalar
  · rw [same] at held
    cases held

/-- A calm value that mirrors a host value is taken for it, unless that is too high. -/
theorem runOn_toHost_of_mirrors {form : HostValue} (mirrors : t.Mirrors w form)
    (calm : t.Calm w) :
    (form.height ≤ 128 → ∃ h, ((toHost w).runOn t).1 = .ok h ∧ h.Same form) ∧
    (128 < form.height → ((toHost w).runOn t).1 = .error (.error (.tooDeep 128))) := by
  obtain ⟨h, u, run, -, unfolds, shallow⟩ | ⟨stop, u, run, stops⟩ :=
    hostValue_converts t depthLimit [] w t (.refl t)
  · have result : ((toHost w).runOn t).1 = .ok h := congrArg Prod.fst run
    have low := (mirrors.shallow 128).1 shallow
    obtain ⟨found, foundUnfolds, same⟩ := mirrors.unfolds
    rw [foundUnfolds.unique unfolds] at same
    exact ⟨fun _ => ⟨h, result, same⟩, fun high => absurd low (Nat.not_le_of_lt high)⟩
  · have result : ((toHost w).runOn t).1 = .error stop := congrArg Prod.fst run
    have shallow := (mirrors.shallow form.height).2 (Nat.le_refl _)
    cases stops with
    | again reaches back =>
      obtain ⟨chain, isChain, long⟩ :=
        reaches.chains_unbounded (back.resolve_left List.not_mem_nil) (form.height + 1)
      have short := shallow chain isChain
      omega
    | deep isChain _ _ long =>
      have short := shallow _ isChain
      rw [long, depthLimit] at short
      exact ⟨fun low => absurd low (by omega), fun _ => result⟩
    | alarm reaches alarming => exact absurd alarming ((calm _ reaches).1 _)
    | unnamed reaches unnamed => exact absurd unnamed (calm _ reaches).2

/--
From the host to the scripts and back: the value comes back in its normal form, up to the order of
the pairs in maps, if that is not too high, and is refused for its height otherwise.
-/
theorem toHost_toScript (sound : s.Sound) (fits : v.Fits)
    (run : (toScript v).runOn s = (.ok w, t)) :
    ((normal t.objects.text v).height ≤ 128 →
      ∃ h, ((toHost w).runOn t).1 = .ok h ∧ h.Same (normal t.objects.text v)) ∧
    (128 < (normal t.objects.text v).height →
      ((toHost w).runOn t).1 = .error (.error (.tooDeep 128))) := by
  obtain ⟨mirrors, -⟩ := value_mirrors structure?_makes stands_structure? sound
    (fun _ _ found => found : TextsIn t t.objects.text) v fits run
  obtain ⟨grown, within⟩ := value_makes structure?_makes v s w t sound run
  exact runOn_toHost_of_mirrors mirrors
    (calm_of_within (grown.layered _ (Nat.le_refl _) s.layered_size) within)

/-- A map that comes back as a list: its keys are integers, and only one of them keeps a value. -/
theorem toHost_toScript_integer_keys :
    let v : HostValue := .map [(.int 2, .bool false), (.int 1, .nil), (.int 2, .list [.int 7, .nil])]
    ({} : Machine).Sound ∧ v.Fits ∧ ((toScript v).runOn {}).1 = .ok (.table ⟨0⟩) ∧
      ∃ h, ((toHost (.table ⟨0⟩)).runOn ((toScript v).runOn {}).2).1 = .ok h ∧
        h.Same (.list [.list [.int 7]]) := by
  intro v
  have sound : ({} : Machine).Sound := nofun
  have fits : v.Fits := by simp [v, Fits, FitsPairs, FitsAll]
  have form : normal ((toScript v).runOn {}).2.objects.text v = .list [.list [.int 7]] := by
    simp [v, normal, normalPairs, normalItems, scriptKey, survivors, gathered, isNil, Value.isInt]
  have ran : (toScript v).runOn {} = (.ok (.table ⟨0⟩), ((toScript v).runOn {}).2) := rfl
  have back := (toHost_toScript sound fits ran).1
  rw [form] at back
  exact ⟨sound, fits, rfl, back (by decide)⟩

end

end Crossing

end ScriptHost
