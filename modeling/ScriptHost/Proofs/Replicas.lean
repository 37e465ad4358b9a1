import ScriptHost.Proofs.AssignmentOrders
import ScriptHost.Proofs.IntegralNumbers
import ScriptHost.Proofs.Marshalling
import ScriptHost.Proofs.RoundTrip

/-!
# From the scripts to the host and back

What the host made of a script value can be given back to the scripts.  The host forgets the keys of
a list and makes texts of the keys of other tables.  Where a table is a sequence or has texts as
keys, nothing is lost by that, and the scripts get a replica of what they gave: new tables with the
same keys, equal scalars, and proxies for the same objects.
-/

namespace ScriptHost

namespace Table

/-- Where the values of rows are related one by one, so are the values of every key. -/
theorem assigned_related {R : Value → Value → Prop} {rows : List (Value × Value × Value)}
    {before after : Value} (start : R before after) (each : ∀ row ∈ rows, R row.2.1 row.2.2)
    (key : Value) :
    R (assigned (rows.map fun row => (row.1, row.2.1)) key before)
      (assigned (rows.map fun row => (row.1, row.2.2)) key after) := by
  induction rows generalizing before after with
  | nil => exact start
  | cons row rest ih =>
    obtain ⟨here, others⟩ := List.forall_mem_cons.1 each
    simp only [assigned, List.map_cons, List.foldl_cons]
    by_cases same : key.asKey = row.1.asKey
    · rw [if_pos same, if_pos same]
      exact ih here others
    · rw [if_neg same, if_neg same]
      exact ih start others

end Table

namespace Machine

/-- What a key has in a table; nil if it has nothing. -/
def entry (s : Machine) (id : TableId) (key : Value) : Value :=
  (s.tables[id.index]?.getD default).get key

/-- Values that a value leads to through the tables that the host looks into. -/
inductive Leads (s : Machine) (v : Value) : Value → Prop where
  | self : Leads s v v
  | held {id : TableId} {pair : Value × Value} (leads : Leads s v (.table id)) (plain : s.Plain id)
      (inside : pair ∈ s.pairsOf id) : Leads s v pair.2

/-- The keys of a table are the integers from one on, without a gap. -/
def IsSequence (s : Machine) (id : TableId) : Prop :=
  ∃ n : Int, ∀ key, (∃ v, (key, v) ∈ s.pairsOf id) ↔
    ∃ i : Int64, key = .int i ∧ 1 ≤ i.toInt ∧ i.toInt ≤ n

/-- The keys of a table are texts. -/
def HasNames (s : Machine) (id : TableId) : Prop :=
  ∀ pair ∈ s.pairsOf id, ∃ name : String, pair.1 = .text name

/-- Values of which the host forgets nothing at once. -/
inductive Clear (s : Machine) : Value → Prop where
  | bool (b : Bool) : Clear s (.bool b)
  | int (i : Int64) : Clear s (.int i)
  | float (x : Binary64) : Clear s (.float x)
  | text (content : String) : Clear s (.text content)
  | pointer {id : TableId} {target : Option ObjectId} (stands : s.unwrap? id = some (.ptr target)) :
      Clear s (.table id)
  | struct {id : TableId} {o : ObjectId} (stands : s.unwrap? id = some (.struct o)) :
      Clear s (.table id)
  | sequence {id : TableId} (plain : s.Plain id) (keys : s.IsSequence id) : Clear s (.table id)
  | names {id : TableId} (plain : s.Plain id) (keys : s.HasNames id) : Clear s (.table id)

/-- A value that leads to clear values only. -/
def Tidy (s : Machine) (v : Value) : Prop := ∀ w, s.Leads v w → s.Clear w

/--
A value of a later machine that is deeply equal to one of an earlier machine.  A key that has
nothing has nil, so tables have the same keys.
-/
inductive Replica (s t : Machine) : Value → Value → Prop where
  | scalar {v w : Value} (scalar : v.isScalar) (equal : v.rawEquals w) : Replica s t v w
  | nan {x y : Binary64} (first : x.isNaN) (second : y.isNaN) : Replica s t (.float x) (.float y)
  | proxy {i j : TableId} {h : HostValue} (stands : s.unwrap? i = some h)
      (also : t.unwrap? j = some h) : Replica s t (.table i) (.table j)
  | table {i j : TableId} (plain : s.Plain i) (also : t.Plain j)
      (each : ∀ key, Replica s t (s.entry i key) (t.entry j key)) :
      Replica s t (.table i) (.table j)

variable {s t u : Machine} {v w : Value} {h : HostValue}

/-! ## Leading to values -/

section Leading

theorem Leads.within {id : TableId} {pair : Value × Value} (leads : s.Leads pair.2 w)
    (plain : s.Plain id) (inside : pair ∈ s.pairsOf id) : s.Leads (.table id) w := by
  induction leads with
  | self => exact .held .self plain inside
  | held _ innerPlain innerInside ih => exact .held ih innerPlain innerInside

theorem Tidy.clear (tidy : s.Tidy v) : s.Clear v := tidy v .self

theorem Tidy.held {id : TableId} {pair : Value × Value} (tidy : s.Tidy (.table id))
    (plain : s.Plain id) (inside : pair ∈ s.pairsOf id) : s.Tidy pair.2 :=
  fun _ leads => tidy _ (leads.within plain inside)

/-- The host value behind a proxy that a value leads to has a form for scripts. -/
def Presents (s : Machine) (v : Value) : Prop :=
  ∀ id found, s.Leads v (.table id) → s.unwrap? id = some found → found.Marshals s.objects []

theorem Presents.held {id : TableId} {pair : Value × Value} (presents : s.Presents (.table id))
    (plain : s.Plain id) (inside : pair ∈ s.pairsOf id) : s.Presents pair.2 :=
  fun _ _ leads stands => presents _ _ (leads.within plain inside) stands

mutual

/-- What the host makes of a value has a form for scripts. -/
theorem Unfolds.marshals {v : Value} {h : HostValue} (presents : s.Presents v) :
    s.Unfolds v h → h.Marshals s.objects []
  | .nil => .nil
  | .bool b => .bool b
  | .int i | .integral (i := i) _ => .int i
  | .float (x := x) _ => .float x
  | .str _ => .str _
  | .bare _ => .str _
  | .proxy stands => presents _ _ .self stands
  | .list plain pairs _ each => by
    refine .list (UnfoldsEach.marshals (fun v inside => ?_) each)
    obtain ⟨entry, among, rfl⟩ := List.mem_map.1 inside
    have held : (Value.int entry.1, entry.2) ∈ s.pairsOf _ :=
      pairs.mem_iff.1 (List.mem_map_of_mem among)
    exact presents.held plain held
  | .map plain _ each => by
    obtain ⟨keys, values⟩ := UnfoldsPairs.marshals (fun _ inside => presents.held plain inside) each
    exact .map keys values

theorem UnfoldsEach.marshals {values : List Value} {items : List HostValue}
    (presents : ∀ v ∈ values, s.Presents v) :
    s.UnfoldsEach values items → ∀ item ∈ items, item.Marshals s.objects []
  | .nil => List.forall_mem_nil _
  | .cons first others => List.forall_mem_cons.2
    ⟨first.marshals (presents _ List.mem_cons_self),
      UnfoldsEach.marshals (fun v inside => presents v (.tail _ inside)) others⟩

theorem UnfoldsPairs.marshals {pairs : List (Value × Value)}
    {found : List (HostValue × HostValue)} (presents : ∀ pair ∈ pairs, s.Presents pair.2) :
    s.UnfoldsPairs pairs found → (∀ pair ∈ found, s.objects.Names pair.1) ∧
      ∀ pair ∈ found, pair.2.Marshals s.objects []
  | .nil => ⟨List.forall_mem_nil _, List.forall_mem_nil _⟩
  | .cons _ _ value others => by
    obtain ⟨keys, values⟩ :=
      UnfoldsPairs.marshals (fun pair inside => presents pair (.tail _ inside)) others
    exact ⟨List.forall_mem_cons.2 ⟨trivial, keys⟩,
      List.forall_mem_cons.2 ⟨value.marshals (presents _ List.mem_cons_self), values⟩⟩

end

end Leading

/-! ## Replicas -/

section Replicas

theorem Replica.integral {x : Binary64} {i : Int64} (equal : x.toInt64? = some i) :
    Replica s t (.float x) (.int i) := by
  refine .scalar rfl ?_
  rw [Value.rawEquals, Binary64.compareInt?_eq_iff.2 equal]
  rfl

theorem Replica.number (x : Binary64) : Replica s t (.float x) (.float x) := by
  cases number : x.isNaN with
  | true => exact .nan number number
  | false => exact .scalar rfl (by simp [Value.rawEquals, Binary64.equals, number])

theorem entry_eq_assigned (s : Machine) (id : TableId) (key : Value) :
    s.entry id key = Table.assigned (s.pairsOf id) key .nil :=
  (Table.assigned_live _ _).symm

/-- What was made is left alone while older tables are filled, and stays a replica. -/
theorem Replica.agree {low high : Nat} (replica : Replica s t v w) (agree : t.Agree u low high)
    (within : Within low high w) : Replica s u v w := by
  induction replica with
  | scalar scalar equal => exact .scalar scalar equal
  | nan first second => exact .nan first second
  | proxy stands also => exact .proxy stands ((agree.unwrap? within).trans also)
  | @table i j plain also _ ih =>
    refine .table plain ((agree.unwrap? within).trans also) fun key => ?_
    have same : u.entry j key = t.entry j key := by
      rw [entry_eq_assigned, entry_eq_assigned, (agree j within.1 within.2).1]
    rw [same]
    refine ih key ?_
    by_cases missing : t.entry j key = .nil
    · rw [missing]
      exact .of_isScalar rfl
    · refine agree.within within ⟨(key.asKey, t.entry j key), ?_, .inr rfl⟩
      exact Table.mem_live.2 ⟨key.asKey_asKey, Table.get_asKey _ _, missing⟩

/-- A new table is a replica of a table if it was filled with replicas of its pairs. -/
theorem Filled.replica {id : TableId} {table : Table} {pairs : List (Value × Value)}
    (plain : s.Plain id) (order : pairs.Perm (s.pairsOf id))
    (empty : ∀ key, table.get key = .nil) (sound : t.Sound)
    (filled : Filled (fun u w v => Replica s u v w) ⟨t.tables.size⟩
      { t with tables := t.tables.push table } u pairs) :
    Replica s u (.table id) (.table ⟨t.tables.size⟩) := by
  refine .table plain (filled.plain sound) fun key => ?_
  obtain ⟨rows, rfl, content, each⟩ := filled.rows
  have before : s.entry id key =
      Table.assigned (rows.map fun row => (row.1, row.2.1)) key .nil := by
    rw [entry_eq_assigned]
    exact (Table.assigned_of_perm order (Table.live_final_keys_nodup _)).symm
  have after : u.entry ⟨t.tables.size⟩ key =
      Table.assigned (rows.map fun row => (row.1, row.2.2)) key .nil := by
    rw [entry, content]
    simp [Table.get_foldl_set, empty]
  rw [before, after]
  exact Table.assigned_related (R := Replica s u) (.scalar rfl rfl) each key

/-- Ascending integers without a gap are counted up. -/
theorem positioned_of_ascending {indexed : List (Int64 × Value)} {low : Nat} {n : Int}
    (ascending : indexed.Pairwise fun a b => a.1.toInt < b.1.toInt)
    (bounds : ∀ entry ∈ indexed, low ≤ entry.1.toInt ∧ entry.1.toInt ≤ n)
    (full : ∀ i : Int64, low ≤ i.toInt → i.toInt ≤ n → ∃ v, (i, v) ∈ indexed) :
    indexed.map (fun entry => (Value.int entry.1, entry.2)) =
      Table.positioned low (indexed.map (·.2)) := by
  induction indexed generalizing low with
  | nil => rfl
  | cons first rest ih =>
    obtain ⟨least, ascending⟩ := List.pairwise_cons.1 ascending
    obtain ⟨⟨above, below⟩, bounds⟩ := List.forall_mem_cons.1 bounds
    have room := first.1.toInt_lt
    have value : (Int64.ofNat low).toInt = low := Int64.toInt_ofNat_of_lt (by omega)
    have start : first.1 = .ofNat low := by
      obtain ⟨v, inside⟩ := full (.ofNat low) (by omega) (by omega)
      rcases List.mem_cons.1 inside with rfl | later
      · rfl
      · have := least _ later
        dsimp only at this
        omega
    have next : first.1.toInt = low := by rw [start, value]
    rw [List.map_cons, List.map_cons, Table.positioned, start]
    refine congrArg _ (ih ascending (fun entry inside => ?_) fun i above below => ?_)
    · have := least entry inside
      have := (bounds entry inside).2
      omega
    · obtain ⟨v, inside⟩ := full i (by omega) below
      rcases List.mem_cons.1 inside with rfl | later
      · dsimp only at next
        omega
      · exact ⟨v, later⟩

end Replicas

end Machine

namespace Crossing

open Machine MachineM

variable {s t u : Machine}

/-- An entry is made, then it is set, and then come the others. -/
theorem Makes.runOn_entry {m : CrossingM Value} {rest : CrossingM Unit} {id : TableId} {key : Value}
    (makes : Makes m) (scalar : key.isScalar) (sound : t.Sound) (older : id.index < t.tables.size)
    (run : (do rawSet id key (← m); rest).runOn t = (.ok (), u)) :
    ∃ w made, m.runOn t = (.ok w, made) ∧ Grown ⟨t.tables.size⟩ t made ∧
      Within t.tables.size made.tables.size w ∧
      ∃ filled : Machine,
        filled = { made with tables := made.tables.modify id.index (·.set key w) } ∧
        filled.Sound ∧ id.index < filled.tables.size ∧ rest.runOn filled = (.ok (), u) := by
  obtain ⟨w, made, first, run⟩ := runOn_bind_eq_ok.1 run
  obtain ⟨grown, within⟩ := makes t w made sound first
  rw [runOn_bind_ok (runOn_rawSet id key w made)] at run
  have set := Grown.rawSet grown.sound scalar (within.widen older (Nat.le_refl _))
  have before := grown.apart (Nat.le_refl _) (Nat.le_of_lt older)
  refine ⟨w, made, first, grown, within, _, rfl, set.sound, ?_, run⟩
  exact Nat.lt_of_lt_of_le older (Nat.le_trans before.size_le set.size_le)

/-- The host took a sequence for the list of its values. -/
theorem positioned_perm_of_clear {id : TableId} {indexed : List (Int64 × Value)}
    (clear : s.Clear (.table id)) (plain : s.Plain id)
    (pairs : (indexed.map fun entry => (Value.int entry.1, entry.2)).Perm (s.pairsOf id))
    (ascending : indexed.Pairwise fun a b => a.1.toInt < b.1.toInt) :
    (Table.positioned 1 (indexed.map (·.2))).Perm (s.pairsOf id) := by
  have held (entry : Int64 × Value) (inside : entry ∈ indexed) :
      (Value.int entry.1, entry.2) ∈ s.pairsOf id :=
    pairs.mem_iff.1 (List.mem_map_of_mem inside)
  cases clear with
  | pointer stands | struct stands =>
    rw [Plain, stands] at plain
    cases plain
  | sequence _ keys =>
    obtain ⟨n, keys⟩ := keys
    rw [← positioned_of_ascending (n := n) ascending]
    · exact pairs
    · intro entry inside
      obtain ⟨i, same, bounds⟩ := (keys _).1 ⟨_, held entry inside⟩
      cases same
      exact bounds
    · intro i above below
      obtain ⟨v, inside⟩ := (keys (.int i)).2 ⟨i, rfl, above, below⟩
      obtain ⟨entry, among, same⟩ := List.mem_map.1 (pairs.mem_iff.2 inside)
      cases same
      exact ⟨_, among⟩
  | names _ keys =>
    cases indexed with
    | nil => exact pairs
    | cons entry rest =>
      obtain ⟨name, same⟩ := keys _ (held entry List.mem_cons_self)
      cases same

/-- The host took a table for a map, so its keys are texts. -/
theorem names_of_clear {id : TableId} (clear : s.Clear (.table id)) (plain : s.Plain id)
    (mixed : ∃ pair ∈ s.pairsOf id, ∀ i, pair.1 ≠ .int i) : s.HasNames id := by
  cases clear with
  | pointer stands | struct stands =>
    rw [Plain, stands] at plain
    cases plain
  | sequence _ keys =>
    obtain ⟨n, keys⟩ := keys
    obtain ⟨⟨key, v⟩, inside, other⟩ := mixed
    obtain ⟨i, same, -⟩ := (keys key).1 ⟨v, inside⟩
    exact absurd same (other i)
  | names _ keys => exact keys

mutual

/-- What the scripts are given is a replica of what the host was given. -/
theorem value_replicates {t u : Machine} {v w : Value} {h : HostValue} (tidy : s.Tidy v)
    (sound : t.Sound) (run : (value structure? h).runOn t = (.ok w, u)) :
    s.Unfolds v h → Replica s u v w
  | .nil => by cases tidy.clear
  | .bool b => by
    cases run
    exact .scalar rfl (beq_self_eq_true _)
  | .int i => by
    cases run
    exact .scalar rfl (beq_self_eq_true _)
  | .integral equal => by
    cases run
    exact .integral equal
  | .float (x := x) fractional => by
    have same : Value.ofBinary64 x = .float x := by rw [Value.ofBinary64, fractional]
    cases run
    rw [same]
    exact .number x
  | .str bytes => by
    cases tidy.clear with
    | text content =>
      rw [Utf8.decode_toByteArray] at run
      cases run
      exact .scalar rfl (beq_self_eq_true _)
  | .bare isBare => by
    cases tidy.clear with
    | _ => cases isBare
  | .proxy stands => by
    cases tidy.clear with
    | pointer also =>
      rw [stands] at also
      cases also
      rw [value, runOn_pointer] at run
      cases run
      refine .proxy stands ?_
      rw [Machine.unwrap?, handle?_marked_self]
      rfl
    | struct also =>
      rw [stands] at also
      cases also
      obtain ⟨id, rfl, also⟩ := stands_structure? _ t w u sound run
      exact .proxy stands also
    | sequence plain | names plain =>
      rw [Plain, stands] at plain
      cases plain
  | @Unfolds.list _ _ _ items plain pairs ascending each => by
    rw [value, runOn_bind_ok (runOn_newTable _ t)] at run
    obtain ⟨_, m, filled, done⟩ := runOn_bind_eq_ok.1 run
    cases done
    have start := Grown.newTable sound (Table.live_bare items.length 0 none)
    have order := positioned_perm_of_clear tidy.clear plain pairs ascending
    refine Filled.replica plain order (Table.get_bare _ _ _) sound
      (putItems_replicates (fun v inside => ?_) start.sound (by simp) filled each)
    obtain ⟨entry, among, rfl⟩ := List.mem_map.1 inside
    have held : (Value.int entry.1, entry.2) ∈ s.pairsOf _ :=
      pairs.mem_iff.1 (List.mem_map_of_mem among)
    exact tidy.held plain held
  | .map plain mixed each => by
    rw [value, runOn_bind_ok (runOn_newTable _ t)] at run
    obtain ⟨_, m, filled, done⟩ := runOn_bind_eq_ok.1 run
    cases done
    have start := Grown.newTable sound (Table.live_bare 0 0 none)
    exact Filled.replica plain (.refl _) (Table.get_bare _ _ _) sound
      (putPairs_replicates (fun _ inside => tidy.held plain inside)
        (names_of_clear tidy.clear plain mixed) start.sound (by simp) filled each)

theorem putItems_replicates {t u : Machine} {id : TableId} {index : Nat} {values : List Value}
    {items : List HostValue} (tidy : ∀ v ∈ values, s.Tidy v) (sound : t.Sound)
    (older : id.index < t.tables.size)
    (run : (putItems structure? id index items).runOn t = (.ok (), u)) :
    s.UnfoldsEach values items →
      Filled (fun u w v => Replica s u v w) id t u (Table.positioned index values)
  | .nil => by
    cases run
    exact .nothing sound
  | .cons (v := v) (h := item) first others => by
    obtain ⟨w, made, run, grown, within, _, rfl, still, inside, rest⟩ :=
      (value_makes structure?_makes item).runOn_entry rfl sound older run
    have replica := value_replicates (tidy _ List.mem_cons_self) sound run first
    exact .cons rfl older grown within (fun _ agree => replica.agree agree within)
      (putItems_replicates (fun v among => tidy v (.tail _ among)) still inside rest others)

theorem putPairs_replicates {t u : Machine} {id : TableId} {pairs : List (Value × Value)}
    {found : List (HostValue × HostValue)} (tidy : ∀ pair ∈ pairs, s.Tidy pair.2)
    (names : ∀ pair ∈ pairs, ∃ name : String, pair.1 = .text name) (sound : t.Sound)
    (older : id.index < t.tables.size)
    (run : (putPairs structure? id found).runOn t = (.ok (), u)) :
    s.UnfoldsPairs pairs found → Filled (fun u w v => Replica s u v w) id t u pairs
  | .nil => by
    cases run
    exact .nothing sound
  | @UnfoldsPairs.cons _ _ _ _ item text _ _ key shown first others => by
    obtain ⟨name, rfl⟩ := names _ List.mem_cons_self
    obtain rfl : text = name := by
      cases key with
      | str =>
        rw [Utf8.decode_toByteArray] at shown
        exact (Option.some.inj shown).symm
      | bare isBare => cases isBare
    have final : (Crossing.key (.str text)).runOn t = (.ok (.text text), t) := rfl
    rw [putPairs, runOn_bind_ok final] at run
    obtain ⟨w, made, run, grown, within, _, rfl, still, inside, rest⟩ :=
      (value_makes structure?_makes item).runOn_entry rfl sound older run
    have replica := value_replicates (tidy _ List.mem_cons_self) sound run first
    exact .cons rfl older grown within (fun _ agree => replica.agree agree within)
      (putPairs_replicates (fun pair among => tidy pair (.tail _ among))
        (fun pair among => names pair (.tail _ among)) still inside rest others)

end

/--
From the scripts to the host and back.  What the host made of a value crosses to the scripts, if the
objects behind proxies have public fields that scripts have a form for, and no writer holds one of
those whose fields are copied; it is refused because of such an object otherwise.  Where nothing is
forgotten on the way, the scripts get a replica of what they gave.
-/
theorem toScript_toHost {v : Value} {h : HostValue} (sound : s.Sound) (presents : s.Presents v)
    (run : (toHost v).runOn s = (.ok h, t)) :
    (((∀ o, h.Shows s.objects o → (s.objects.get o).hold ≠ .exclusive) ∧
        ∃ w u, (toScript h).runOn t = (.ok w, u)) ∨
      ∃ o u, h.Shows s.objects o ∧ (s.objects.get o).hold = .exclusive ∧
        (toScript h).runOn t =
          (.error (.error (.host (.busy (s.objects.get o).shape.name))), u)) ∧
    (s.Tidy v → ∀ w u, (toScript h).runOn t = (.ok w, u) → Replica s u v w) := by
  obtain ⟨unfolds, later⟩ : s.Unfolds v h ∧ s.Later t := by
    obtain ⟨found, u, ran, later, unfolds, -⟩ | ⟨stop, u, ran, -⟩ :=
      hostValue_converts s depthLimit [] v s (.refl s)
    · rw [toHost, ran] at run
      cases run
      exact ⟨unfolds, later⟩
    · rw [toHost, ran] at run
      cases run
  constructor
  · have form := unfolds.marshals presents
    rw [← later.objects] at form ⊢
    exact runOn_toScript_of_marshals form
  · intro tidy w u back
    have still : t.Sound := by
      obtain ⟨n, rfl⟩ := later
      exact sound
    exact value_replicates tidy still back unfolds

/-- A machine with a resource that is held, and two tables. -/
def shelfBoard (hold : Hold) : Machine where
  tables := #[.empty, ((Table.bare 2 0 none).putItem 0 (.table ⟨0⟩)).putItem 1 (.float .zero)]
  objects.instances := #[{ shape := Resource.shape, fields := Resource.layout.fields {}, hold }]

/-- The first table is a proxy for the resource; the second one is a list of it and a number. -/
def shelf (hold : Hold) : Machine :=
  (shelfBoard hold).marked ⟨0⟩ ⟨.struct ⟨0⟩, some Resource.shape⟩

theorem sound_shelfBoard (hold : Hold) : (shelfBoard hold).Sound := by
  intro entry inside
  cases inside

theorem sound_shelf (hold : Hold) : (shelf hold).Sound :=
  (sound_shelfBoard hold).marked Nat.zero_lt_two _

theorem unwrap?_shelf (hold : Hold) : (shelf hold).unwrap? ⟨0⟩ = some (.struct ⟨0⟩) := by
  rw [shelf, Machine.unwrap?, handle?_marked_self]
  rfl

theorem presents_shelf (hold : Hold) (v : Value) : (shelf hold).Presents v := by
  have form : (HostValue.struct ⟨0⟩).Marshals (shelf hold).objects [] := by
    refine .struct Nat.zero_lt_one List.not_mem_nil fun entry inside => ?_
    have fields : ((shelf hold).objects.get ⟨0⟩).publicFields =
        [("kind", .text ""), ("name", .text ""), ("namespace", .text ""), ("replicas", .int 0),
          ("weight", .float .zero), ("ready", .bool false), ("labels", .map [])] := rfl
    rw [fields] at inside
    simp only [List.mem_cons, List.not_mem_nil, or_false] at inside
    rcases inside with rfl | rfl | rfl | rfl | rfl | rfl | rfl
    case inr.inr.inr.inr.inr.inr => exact .map (List.forall_mem_nil _)
    all_goals constructor
  intro id found _ stands
  by_cases same : id = ⟨0⟩
  · rw [same, unwrap?_shelf] at stands
    cases stands
    exact form
  · rw [shelf, Machine.unwrap?, (sound_shelfBoard hold).handle?_marked same] at stands
    cases stands

theorem plain_shelf (hold : Hold) : (shelf hold).Plain ⟨1⟩ := rfl

theorem pairsOf_shelf (hold : Hold) : (shelf hold).pairsOf ⟨1⟩ =
    [(.int 1, .table ⟨0⟩), (.int 2, .float .zero)] := rfl

theorem tidy_shelf (hold : Hold) : (shelf hold).Tidy (.table ⟨1⟩) := by
  have led (w : Value) (leads : (shelf hold).Leads (.table ⟨1⟩) w) :
      w = .table ⟨1⟩ ∨ w = .table ⟨0⟩ ∨ w = .float .zero := by
    induction leads with
    | self => exact .inl rfl
    | held _ plain inside ih =>
      rcases ih with same | same | same
      · cases same
        rw [pairsOf_shelf] at inside
        rcases List.mem_pair.1 inside with rfl | rfl
        · exact .inr (.inl rfl)
        · exact .inr (.inr rfl)
      · cases same
        rw [Plain, unwrap?_shelf] at plain
        cases plain
      · cases same
  have keys : (shelf hold).IsSequence ⟨1⟩ := by
    refine ⟨2, fun key => ?_⟩
    rw [pairsOf_shelf]
    constructor
    · rintro ⟨v, inside⟩
      rcases List.mem_pair.1 inside with same | same
      · cases same
        exact ⟨1, rfl, by decide⟩
      · cases same
        exact ⟨2, rfl, by decide⟩
    · rintro ⟨i, rfl, above, below⟩
      have bounds : i.toInt = (1 : Int64).toInt ∨ i.toInt = (2 : Int64).toInt := by
        have one : (1 : Int64).toInt = 1 := rfl
        have two : (2 : Int64).toInt = 2 := rfl
        omega
      rcases bounds with same | same
      · exact ⟨_, List.mem_pair.2 (.inl (by rw [Int64.toInt_inj.1 same]))⟩
      · exact ⟨_, List.mem_pair.2 (.inr (by rw [Int64.toInt_inj.1 same]))⟩
  intro w leads
  rcases led w leads with rfl | rfl | rfl
  · exact .sequence (plain_shelf hold) keys
  · exact .struct (unwrap?_shelf hold)
  · exact .float .zero

theorem toHost_shelf (hold : Hold) : (toHost (.table ⟨1⟩)).runOn (shelf hold) =
    (.ok (.list [.struct ⟨0⟩, .int 0]), shelf hold) := by
  have entries : (entriesOf ⟨1⟩).runOn (shelf hold) =
      (.ok [(.int 1, .table ⟨0⟩), (.int 2, .float .zero)], shelf hold) := by
    rw [entriesOf, runOn_bind_ok (runOn_table _ _)]
    rfl
  have sorted : sequence? [(.int 1, .table ⟨0⟩), (.int 2, .float .zero)] =
      some [.table ⟨0⟩, .float .zero] := by
    simp [sequence?, indexOf?, List.mergeSort]
  have proxy : (hostValue 127 [⟨1⟩] (.table ⟨0⟩)).runOn (shelf hold) =
      (.ok (.struct ⟨0⟩), shelf hold) := by
    rw [hostValue_table_succ, runOn_bind_ok (runOn_get _), unwrap?_shelf]
    rfl
  have number : (hostValue 127 [⟨1⟩] (.float .zero)).runOn (shelf hold) =
      (.ok (.int 0), shelf hold) := by
    have integral : Binary64.zero.toInt64? = some 0 := by decide +kernel
    rw [hostValue, integral, runOn_pure]
  have items : ([.table ⟨0⟩, .float .zero].mapM (hostValue 127 [⟨1⟩])).runOn (shelf hold) =
      (.ok [.struct ⟨0⟩, .int 0], shelf hold) := by
    rw [List.mapM_cons, runOn_bind_ok proxy, List.mapM_cons, bind_assoc, runOn_bind_ok number]
    rfl
  have plain : (shelf hold).unwrap? ⟨1⟩ = none := rfl
  rw [toHost, depthLimit, hostValue_table_succ, runOn_bind_ok (runOn_get _), plain]
  simp only [List.not_mem_nil, if_false]
  rw [runOn_bind_ok entries, contents, sorted]
  exact runOn_bind_ok items _

/-- The number comes back as an integer, the proxy as another one, in a table of the same keys. -/
theorem toScript_toHost_shelf :
    (shelf .free).Sound ∧ (shelf .free).Presents (.table ⟨1⟩) ∧ (shelf .free).Tidy (.table ⟨1⟩) ∧
      (toHost (.table ⟨1⟩)).runOn (shelf .free) =
        (.ok (.list [.struct ⟨0⟩, .int 0]), shelf .free) ∧
      ∃ w u, (toScript (.list [.struct ⟨0⟩, .int 0])).runOn (shelf .free) = (.ok w, u) ∧
        Replica (shelf .free) u (.table ⟨1⟩) w := by
  have sound := sound_shelf .free
  have presents := presents_shelf .free (.table ⟨1⟩)
  have tidy := tidy_shelf .free
  have run := toHost_shelf .free
  refine ⟨sound, presents, tidy, run, ?_⟩
  obtain ⟨⟨-, w, u, back⟩ | ⟨o, u, -, held, -⟩, replica⟩ := toScript_toHost sound presents run
  · exact ⟨w, u, back, replica tidy w u back⟩
  · obtain ⟨_ | index⟩ := o
    · cases held
    · cases held

/-- The host takes the proxy for the resource, and cannot give it back while a writer holds it. -/
theorem toScript_toHost_held :
    (shelf .exclusive).Sound ∧ (shelf .exclusive).Presents (.table ⟨0⟩) ∧
      (toHost (.table ⟨0⟩)).runOn (shelf .exclusive) = (.ok (.struct ⟨0⟩), shelf .exclusive) ∧
      ((toScript (.struct ⟨0⟩)).runOn (shelf .exclusive)).1 =
        .error (.error (.host (.busy "Resource"))) := by
  refine ⟨sound_shelf _, presents_shelf _ _, ?_, rfl⟩
  rw [toHost, depthLimit, hostValue_table_succ, runOn_bind_ok (runOn_get _), unwrap?_shelf]
  rfl

end Crossing

end ScriptHost
