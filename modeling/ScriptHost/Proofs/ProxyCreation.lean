import ScriptHost.Boundary.Collection
import ScriptHost.Proofs.Conversion
import ScriptHost.Proofs.ProxyRuns

/-!
# Where proxies come from

What makes proxies takes steps of a chronicle: it makes tables, fills them, and marks some of the
new ones.  This holds for every outcome, since what was made before a failure stays.
-/

namespace ScriptHost

open MachineM

namespace Chronicle

/-- A machine that is reached from a chronicle when some new tables have become proxies. -/
structure Recorded (c : Chronicle) (t : Machine) (more : List (TableId × HostValue)) : Prop where
  run : Run c ⟨t, c.made ++ more, c.lost⟩
  size_le : c.machine.tables.size ≤ t.tables.size
  new : ∀ entry ∈ more, c.machine.tables.size ≤ entry.1.index

/--
A computation that takes steps of a chronicle and makes proxies of new tables only, on a heap with
at least the given number of objects.
-/
def Records {α : Type} (size : Nat) (m : CrossingM α) : Prop :=
  ∀ (c : Chronicle) (result : Except (Stop CrossingError) α) (t : Machine), c.Sound →
    size ≤ c.machine.objects.size → m.runOn c.machine = (result, t) →
      ∃ more, Recorded c t more

variable {α β : Type} {size : Nat} {c : Chronicle}

namespace Recorded

theorem refl (c : Chronicle) : Recorded c c.machine [] where
  run := by rw [List.append_nil]
  size_le := Nat.le_refl _
  new _ among := absurd among List.not_mem_nil

theorem single {t : Machine} (step : Step c { c with machine := t })
    (size_le : c.machine.tables.size ≤ t.tables.size) : Recorded c t [] where
  run := by
    rw [List.append_nil]
    exact .single step
  size_le := size_le
  new _ among := absurd among List.not_mem_nil

theorem newTable (c : Chronicle) (table : Table) :
    Recorded c { c.machine with tables := c.machine.tables.push table } [] :=
  single (Step.newTable table) (by rw [Array.size_push]; exact Nat.le_succ _)

theorem trans {t u : Machine} {more others : List (TableId × HostValue)}
    (first : Recorded c t more) (second : Recorded ⟨t, c.made ++ more, c.lost⟩ u others) :
    Recorded c u (more ++ others) where
  run := by
    rw [← List.append_assoc]
    exact first.run.trans second.run
  size_le := Nat.le_trans first.size_le second.size_le
  new entry among := by
    rcases List.mem_append.1 among with among | among
    · exact first.new entry among
    · exact Nat.le_trans first.size_le (second.new entry among)

end Recorded

/-! ## Computations that record what they make -/

/-- A computation that only looks at the machine. -/
theorem records_of_unchanged {m : CrossingM α} (unchanged : ∀ s, (m.runOn s).2 = s) :
    Records size m := by
  intro c result t sound large run
  have same := unchanged c.machine
  rw [run] at same
  subst same
  exact ⟨[], .refl c⟩

theorem records_pure (a : α) : Records size (pure a) := records_of_unchanged fun _ => rfl

theorem Records.bind {m : CrossingM α} {f : α → CrossingM β} (first : Records size m)
    (rest : ∀ a, Records size (f a)) : Records size (m >>= f) := by
  intro c result u sound large run
  rcases outcome : m.runOn c.machine with ⟨stop | a, t⟩
  · rw [runOn_bind_stop outcome] at run
    cases run
    exact first c _ _ sound large outcome
  · rw [runOn_bind_ok outcome] at run
    obtain ⟨more, before⟩ := first c _ t sound large outcome
    obtain ⟨others, after⟩ := rest a ⟨t, c.made ++ more, c.lost⟩ result u (sound.run before.run)
      (Nat.le_trans large before.run.follows.size_le) run
    exact ⟨more ++ others, before.trans after⟩

theorem records_newTable (table : Table) :
    Records size (newTable table : CrossingM TableId) := by
  intro c result t sound large run
  cases run
  exact ⟨[], .newTable c table⟩

theorem records_rawSet (id : TableId) (key v : Value) :
    Records size (rawSet id key v : CrossingM Unit) := by
  intro c result t sound large run
  cases run
  exact ⟨[], .single (.write _ Array.size_modify) (Nat.le_of_eq Array.size_modify.symm)⟩

theorem records_textKey (v : HostValue) : Records size (Crossing.textKey v) := by
  refine records_of_unchanged fun s => ?_
  rw [Crossing.runOn_textKey]
  cases s.objects.text v <;> rfl

theorem records_key (v : HostValue) : Records size (Crossing.key v) := by
  unfold Crossing.key
  split
  case h_5 => split <;> exact records_of_unchanged fun _ => rfl
  case h_7 => exact (records_textKey _).bind fun _ => records_pure _
  all_goals exact records_of_unchanged fun _ => rfl

/-- A new table that is filled. -/
theorem records_table (table : Table) {fill : TableId → CrossingM Unit}
    (fills : ∀ id, Records size (fill id)) :
    Records size (do let id ← newTable table; fill id; return .table id : CrossingM Value) :=
  (records_newTable table).bind fun id => (fills id).bind fun _ => records_pure _

/-- A new table that is filled and becomes a proxy at last. -/
theorem exists_recorded_of_proxy (table : Table) (fill finish : TableId → CrossingM Unit)
    (sound : c.Sound) {v : HostValue} (known : v.Known c.machine.objects.size)
    (fills : ∀ id, Records c.machine.objects.size (fill id))
    (marks : ∀ id s, s.objects.Follows c.machine.objects →
      (finish id).runOn s = (.ok (), s.marked id (s.handleOf v)))
    {result : Except (Stop CrossingError) Value} {u : Machine}
    (run : (do let id ← newTable table; fill id; finish id; return .table id :
      CrossingM Value).runOn c.machine = (result, u)) :
    ∃ more, Recorded c u more ∧ ∀ w, result = .ok w →
      w = .table ⟨c.machine.tables.size⟩ ∧ (⟨c.machine.tables.size⟩, v) ∈ more := by
  let id : TableId := ⟨c.machine.tables.size⟩
  let begun : Machine := { c.machine with tables := c.machine.tables.push table }
  have start : Recorded c begun [] := .newTable c table
  rw [runOn_bind_ok (runOn_newTable table c.machine)] at run
  rcases filled : (fill id).runOn begun with ⟨stop | _, t⟩
  · rw [runOn_bind_stop filled] at run
    cases run
    obtain ⟨more, recorded⟩ := fills id ⟨begun, c.made ++ [], c.lost⟩ _ _ (sound.run start.run)
      (Nat.le_refl _) filled
    exact ⟨more, start.trans recorded, fun _ same => by cases same⟩
  · rw [runOn_bind_ok filled] at run
    obtain ⟨more, recorded⟩ := fills id ⟨begun, c.made ++ [], c.lost⟩ _ t (sound.run start.run)
      (Nat.le_refl _) filled
    have before : Recorded c t more := start.trans recorded
    have follows : t.objects.Follows c.machine.objects := before.run.follows
    rw [runOn_bind_ok (marks id t follows)] at run
    cases run
    have inside : id.index < t.tables.size := by
      have grown : begun.tables.size ≤ t.tables.size := recorded.size_le
      rw [Array.size_push] at grown
      exact grown
    have fresh : id ∉ Chronicle.everMade ⟨t, c.made ++ more, c.lost⟩ := by
      intro made
      obtain ⟨entry, among, same⟩ := List.mem_map.1 made
      rcases List.mem_append.1 among with among | among
      · have old := sound.inside entry among
        rw [same] at old
        exact Nat.lt_irrefl _ old
      · have new : begun.tables.size ≤ entry.1.index := recorded.new entry among
        rw [same, Array.size_push] at new
        exact Nat.lt_irrefl _ new
    have step : Step ⟨t, c.made ++ more, c.lost⟩
        (Chronicle.proxied ⟨t, c.made ++ more, c.lost⟩ id v) :=
      .proxy id v inside fresh (known.mono follows.size_le)
    refine ⟨more ++ [(id, v)], ⟨?_, before.size_le, ?_⟩, ?_⟩
    · rw [← List.append_assoc]
      exact before.run.tail step
    · intro entry among
      rcases List.mem_append.1 among with among | among
      · exact before.new entry among
      · cases List.mem_singleton.1 among
        exact Nat.le_refl _
    · intro w same
      cases same
      exact ⟨rfl, List.mem_append_right _ List.mem_cons_self⟩

/-- A pointer becomes a proxy without fields. -/
theorem exists_recorded_of_pointer (sound : c.Sound) {target : Option ObjectId}
    (known : (HostValue.ptr target).Known c.machine.objects.size)
    {result : Except (Stop CrossingError) Value} {u : Machine}
    (run : (do return .table (← Crossing.proxyOfPointer target) : CrossingM Value).runOn c.machine =
      (result, u)) :
    ∃ more, Recorded c u more ∧ ∀ w, result = .ok w →
      w = .table ⟨c.machine.tables.size⟩ ∧ (⟨c.machine.tables.size⟩, .ptr target) ∈ more :=
  exists_recorded_of_proxy .empty (fun _ => pure ())
    (fun id => do Crossing.markProxy id ((← get : Machine).handleOf (.ptr target))) sound known
    (fun _ => records_pure _) (fun _ _ _ => rfl) run

theorem records_pointer {target : Option ObjectId} (known : (HostValue.ptr target).Known size) :
    Records size (do return .table (← Crossing.proxyOfPointer target) : CrossingM Value) := by
  intro c result t sound large run
  obtain ⟨more, recorded, -⟩ := exists_recorded_of_pointer sound (known.mono large) run
  exact ⟨more, recorded⟩

/-! ## Values that cross to the scripts -/

section

variable {object : ObjectId → CrossingM Value}

mutual

theorem value_records (objects : ∀ size o, o.index < size → Records size (object o)) :
    ∀ v : HostValue, v.Known size → Records size (Crossing.value object v)
  | .nil, _ | .bool _, _ | .int _, _ | .float _, _ | .str _, _ => records_pure _
  | .list items, known => records_table _ fun id => putItems_records objects id 1 items known
  | .map pairs, known => records_table _ fun id => putPairs_records objects id pairs known
  | .struct o, known => objects size o known
  | .ptr _, known => records_pointer known
  | .foreign _, _ => records_of_unchanged fun _ => rfl

theorem putItems_records (objects : ∀ size o, o.index < size → Records size (object o))
    (id : TableId) (index : Nat) :
    ∀ items : List HostValue, HostValue.KnownItems size items →
      Records size (Crossing.putItems object id index items)
  | [], _ => records_pure ()
  | item :: rest, known =>
    (value_records objects item known.1).bind fun _ => (records_rawSet _ _ _).bind fun _ =>
      putItems_records objects id (index + 1) rest known.2

theorem putPairs_records (objects : ∀ size o, o.index < size → Records size (object o))
    (id : TableId) :
    ∀ pairs : List (HostValue × HostValue), HostValue.KnownPairs size pairs →
      Records size (Crossing.putPairs object id pairs)
  | [], _ => records_pure ()
  | (k, item) :: rest, known =>
    (records_key k).bind fun _ => (value_records objects item known.1).bind fun _ =>
      (records_rawSet _ _ _).bind fun _ => putPairs_records objects id rest known.2

end

/-- A copy of a record gets an object of its own, whose type stays while the fields are set. -/
theorem record_records (shape : Shape) (data : List Datum)
    (known : Datum.KnownItems size data)
    (fills : ∀ larger, size ≤ larger → ∀ id,
      Records larger (Crossing.putFields object id shape.fields data)) :
    Records size (Crossing.datum object (.record shape data)) := by
  intro c result u sound large run
  let i : Instance := { shape, fields := data }
  let copied : Machine := { c.machine with objects := (c.machine.objects.add i).2 }
  have first : (onObjects .host (HostM.newObject shape data) : CrossingM ObjectId).runOn c.machine =
      (.ok (c.machine.objects.add i).1, copied) := rfl
  have follows : (c.machine.objects.add i).2.Follows c.machine.objects :=
    Objects.follows_add c.machine.objects i
  have start : Recorded c copied [] :=
    .single (.host _ follows (sound.closed.add (known.mono large))) (Nat.le_refl _)
  rw [Crossing.datum, runOn_bind_ok first] at run
  have inside : (c.machine.objects.add i).1.index < copied.objects.size := by
    simp [copied, Objects.size, Objects.add]
  obtain ⟨more, recorded, -⟩ := exists_recorded_of_proxy (c := ⟨copied, c.made ++ [], c.lost⟩)
    (v := .struct (c.machine.objects.add i).1) .empty
    (Crossing.putFields object · shape.fields data)
    (fun id => Crossing.markProxy id ⟨.struct (c.machine.objects.add i).1, some shape⟩)
    (sound.run start.run) inside
    (fun id => fills copied.objects.size (Nat.le_trans large follows.size_le) id)
    (fun id s later => by
      have same : (s.objects.get (c.machine.objects.add i).1).shape = shape := by
        rw [later.shape _ inside]
        exact congrArg Instance.shape (Objects.get_add_self c.machine.objects i)
      rw [Crossing.runOn_markProxy, Machine.handleOf, HostValue.object?, Option.map_some, same])
    run
  exact ⟨more, start.trans recorded⟩

mutual

theorem datum_records (objects : ∀ size o, o.index < size → Records size (object o)) :
    ∀ {size : Nat} (d : Datum), d.Known size → Records size (Crossing.datum object d)
  | _, .bool _, _ | _, .int _, _ | _, .size _, _ | _, .float _, _ | _, .text _, _
  | _, .absent, _ => records_pure _
  | _, .object _, known => records_pointer known
  | _, .any v, known => value_records objects v known
  | _, .record shape data, known => record_records shape data known fun _ more id =>
    putFields_records objects id shape.fields data (known.mono more)
  | _, .present content, known => datum_records objects content known
  | _, .list items, known => records_table _ fun id => putData_records objects id 1 items known
  | _, .map entries, known => records_table _ fun id => putEntries_records objects id entries known

theorem putData_records (objects : ∀ size o, o.index < size → Records size (object o))
    (id : TableId) (index : Nat) :
    ∀ {size : Nat} (items : List Datum), Datum.KnownItems size items →
      Records size (Crossing.putData object id index items)
  | _, [], _ => records_pure ()
  | _, item :: rest, known =>
    (datum_records objects item known.1).bind fun _ => (records_rawSet _ _ _).bind fun _ =>
      putData_records objects id (index + 1) rest known.2

theorem putEntries_records (objects : ∀ size o, o.index < size → Records size (object o))
    (id : TableId) :
    ∀ {size : Nat} (entries : List (String × Datum)), Datum.KnownEntries size entries →
      Records size (Crossing.putEntries object id entries)
  | _, [], _ => records_pure ()
  | _, (_, item) :: rest, known =>
    (datum_records objects item known.1).bind fun _ => (records_rawSet _ _ _).bind fun _ =>
      putEntries_records objects id rest known.2

theorem putFields_records (objects : ∀ size o, o.index < size → Records size (object o))
    (id : TableId) :
    ∀ {size : Nat} (declared : List Field) (data : List Datum), Datum.KnownItems size data →
      Records size (Crossing.putFields object id declared data)
  | _, _, [], _ => by
    rw [Crossing.putFields]
    exact records_pure ()
  | _, [], _ :: _, _ => records_pure ()
  | _, field :: declared, item :: rest, known => by
    rw [Crossing.putFields]
    split
    · exact (datum_records objects item known.1).bind fun _ => (records_rawSet _ _ _).bind fun _ =>
        putFields_records objects id declared rest known.2
    · exact putFields_records objects id declared rest known.2

end

theorem putObject_records (objects : ∀ size o, o.index < size → Records size (object o))
    (id : TableId) (o : ObjectId) : Records size (Crossing.putObject object id o) := by
  intro c result t sound large run
  unfold Crossing.putObject at run
  by_cases busy : (c.machine.objects.get o).hold = .exclusive
  · have read := Crossing.runOn_readable o c.machine
    rw [if_pos busy] at read
    rw [runOn_bind_stop read] at run
    cases run
    exact ⟨[], .refl c⟩
  · have read := Crossing.runOn_readable o c.machine
    rw [if_neg busy] at read
    rw [runOn_bind_ok read] at run
    exact putFields_records objects id _ _ (sound.closed o) c result t sound (Nat.le_refl _) run

end

/-- A structure becomes a proxy after its public fields did, which may be structures as well. -/
theorem exists_recorded_of_struct (sound : c.Sound) {depth : Nat} {o : ObjectId}
    (objects : ∀ size o, o.index < size → Records size (Crossing.proxyOfStruct depth o))
    (known : o.index < c.machine.objects.size) {result : Except (Stop CrossingError) Value}
    {u : Machine} (run : (Crossing.proxyOfStruct (depth + 1) o).runOn c.machine = (result, u)) :
    ∃ more, Recorded c u more ∧ ∀ w, result = .ok w →
      w = .table ⟨c.machine.tables.size⟩ ∧ (⟨c.machine.tables.size⟩, .struct o) ∈ more := by
  refine exists_recorded_of_proxy (v := .struct o) .empty
    (Crossing.putObject (Crossing.proxyOfStruct depth) · o)
    (fun id => do
      Crossing.markProxy id ⟨.struct o, some ((← get : Machine).objects.get o).shape⟩)
    sound known (fun id => putObject_records objects id o) (fun _ _ _ => rfl) ?_
  rw [Crossing.proxyOfStruct] at run
  simp only [bind_assoc]
  exact run

theorem proxyOfStruct_records (depth : Nat) :
    ∀ size o, o.index < size → Records size (Crossing.proxyOfStruct depth o) := by
  induction depth with
  | zero => exact fun _ _ _ => records_of_unchanged fun _ => rfl
  | succ depth ih =>
    intro size o known c result t sound large run
    obtain ⟨more, recorded, -⟩ :=
      exists_recorded_of_struct sound ih (Nat.lt_of_lt_of_le known large) run
    exact ⟨more, recorded⟩

theorem structure?_records (size : Nat) (o : ObjectId) (known : o.index < size) :
    Records size (Crossing.structure? o) := by
  intro c result t sound large run
  exact proxyOfStruct_records c.machine.objects.size size o known c result t sound large run

/--
A host value that crosses to the scripts takes steps of the chronicle, however that ends.  If it is
a structure or a pointer, the result is a new proxy for it.
-/
theorem exists_recorded_of_toScript (sound : c.Sound) {v : HostValue}
    (known : v.Known c.machine.objects.size) {result : Except (Stop CrossingError) Value}
    {t : Machine} (run : (Crossing.toScript v).runOn c.machine = (result, t)) :
    ∃ more, Recorded c t more ∧ ((∃ o, v = .struct o) ∨ (∃ o, v = .ptr o) → ∀ w, result = .ok w →
      w = .table ⟨c.machine.tables.size⟩ ∧ (⟨c.machine.tables.size⟩, v) ∈ more) := by
  by_cases isStruct : ∃ o, v = .struct o
  · obtain ⟨o, rfl⟩ := isStruct
    have some : ∃ depth, c.machine.objects.size = depth + 1 :=
      Nat.exists_eq_add_one_of_ne_zero (Nat.ne_zero_of_lt known)
    obtain ⟨depth, size⟩ := some
    have run : (Crossing.proxyOfStruct c.machine.objects.size o).runOn c.machine = (result, t) :=
      run
    rw [size] at run
    obtain ⟨more, recorded, made⟩ :=
      exists_recorded_of_struct sound (proxyOfStruct_records depth) known run
    exact ⟨more, recorded, fun _ => made⟩
  · by_cases isPointer : ∃ o, v = .ptr o
    · obtain ⟨target, rfl⟩ := isPointer
      obtain ⟨more, recorded, made⟩ := exists_recorded_of_pointer sound known run
      exact ⟨more, recorded, fun _ => made⟩
    · obtain ⟨more, recorded⟩ :=
        value_records structure?_records v known c result t sound (Nat.le_refl _) run
      exact ⟨more, recorded, fun kind => (kind.elim isStruct isPointer).elim⟩

/-- The collector gives back the slots of the proxies that nothing leads to. -/
theorem run_collect (c : Chronicle) (held : List Value) :
    Run c
      ⟨c.machine.collect held, c.made,
        c.lost ++ c.everMade.filter fun id =>
          !(c.machine.reachable held).contains (.table id)⟩ := by
  let found := c.machine.reachable held
  have dropped := Step.collect (c := c) fun id => found.contains (.table id)
  have swept := Step.write (c := c.collected fun id => found.contains (.table id))
    (c.machine.tables.map (c.machine.sweep found)) Array.size_map
  refine .tail (.single dropped) ?_
  have same : c.machine.collect held =
      { (c.machine.keeping fun id => found.contains (.table id)) with
        tables := c.machine.tables.map (c.machine.sweep found) } := by
    unfold Machine.collect Machine.keeping
    simp only [List.partition_eq_filter_filter, List.foldl_map]
    rfl
  rw [same]
  exact swept

/-- A host that sets the fields of an object takes a step as well. -/
theorem run_setFields (closed : c.machine.objects.Closed) (o : ObjectId) {fields : List Datum}
    (known : Datum.KnownItems c.machine.objects.size fields) :
    Run c { c with machine :=
      ((onObjects .host (HostM.setFields o fields) : CrossingM Unit).runOn c.machine).2 } :=
  .single (.host _ (Objects.follows_set c.machine.objects o fields) (closed.set o known))

/-! ## Whole runs -/

/--
Whatever scripts and hosts do, a proxy that was not collected stands for the host value that it was
made for, with the type of its object, and no other table stands for anything.  This holds of the
proxies that values crossing to the scripts get, and is not changed by collections and by writes to
objects.
-/
theorem proxies_identify {s : Machine} (none : s.proxies = []) (closed : s.objects.Closed)
    {now : Chronicle} (run : Run ⟨s, [], []⟩ now) :
    (∀ id v, (id, v) ∈ now.made → id ∉ now.lost →
      now.machine.unwrap? id = some v ∧
        (Crossing.toHost (.table id)).runOn now.machine = (.ok v, now.machine) ∧
          now.machine.proxyType? id =
            v.object?.map fun o => (now.machine.objects.get o).shape.fullName) ∧
    (∀ id, id ∉ now.everMade →
      now.machine.unwrap? id = .none ∧ now.machine.proxyType? id = .none ∧
        (Crossing.toHost (.table id)).runOn now.machine =
          (Crossing.entriesOf id >>= Crossing.contents
            (Crossing.hostValue (Crossing.depthLimit - 1) [id])).runOn now.machine) ∧
    (∀ v result t, v.Known now.machine.objects.size →
      (Crossing.toScript v).runOn now.machine = (result, t) →
        ∃ more, Run now ⟨t, now.made ++ more, now.lost⟩ ∧
          ((∃ o, v = .struct o) ∨ (∃ o, v = .ptr o) → ∀ w, result = .ok w →
            ∃ id, w = .table id ∧ id ∉ now.everMade ∧ (id, v) ∈ more)) ∧
    (∀ held, Run now
      ⟨now.machine.collect held, now.made, now.lost ++ now.everMade.filter fun id =>
        !(now.machine.reachable held).contains (.table id)⟩) ∧
    ∀ o fields, Datum.KnownItems now.machine.objects.size fields →
      Run now { now with machine :=
        ((onObjects .host (HostM.setFields o fields) : CrossingM Unit).runOn now.machine).2 } := by
  have sound : now.Sound := (sound_start none closed).run run
  refine ⟨?_, ?_, ?_, run_collect now, fun o _ known => run_setFields sound.closed o known⟩
  · intro id v made left
    have handle := sound.live (id, v) made left
    have unwrapped : now.machine.unwrap? id = some v := by
      rw [Machine.unwrap?, handle]
      rfl
    refine ⟨unwrapped, ?_, ?_⟩
    · rw [Crossing.toHost, Crossing.depthLimit, Crossing.hostValue_table_succ,
        runOn_bind_ok (runOn_get now.machine), unwrapped]
      rfl
    · rw [Machine.proxyType?, handle]
      simp only [Machine.handleOf]
      cases v.object? <;> rfl
  · intro id never
    have handle := sound.handle?_of_not_made never
    have unwrapped : now.machine.unwrap? id = .none := by
      rw [Machine.unwrap?, handle]
      rfl
    refine ⟨unwrapped, ?_, ?_⟩
    · rw [Machine.proxyType?, handle]
      rfl
    · rw [Crossing.toHost, Crossing.depthLimit, Crossing.hostValue_table_succ,
        runOn_bind_ok (runOn_get now.machine), unwrapped]
      simp only [if_neg List.not_mem_nil]
  · intro v result t known crossed
    obtain ⟨more, recorded, proxy⟩ := exists_recorded_of_toScript sound known crossed
    refine ⟨more, recorded.run, fun kind w same => ?_⟩
    obtain ⟨rfl, made⟩ := proxy kind w same
    refine ⟨_, rfl, fun old => ?_, made⟩
    obtain ⟨entry, among, same⟩ := List.mem_map.1 old
    have inside := sound.inside entry among
    rw [same] at inside
    exact Nat.lt_irrefl _ inside

/-- A machine with two objects, the second of which refers to the first. -/
def twoObjects : Machine where
  objects := ⟨#[
    { shape := ⟨"Lamp", "", []⟩, fields := [] },
    { shape := ⟨"Room", "", [.visible "lamp" .ptr .object]⟩, fields := [.object ⟨0⟩] }]⟩

/--
The slot of a pointer's proxy is used again for a structure.  Afterwards the tables get each other's
fields and metatables, and still only the structure's proxy stands for it.
-/
theorem proxies_identify_reused :
    ∃ now, Run ⟨twoObjects, [], []⟩ now ∧
      now.made = [(⟨0⟩, .ptr (some ⟨0⟩)), (⟨1⟩, .struct ⟨1⟩)] ∧ now.lost = [⟨0⟩] ∧
        now.machine.proxies = [(⟨1⟩, 0)] ∧
          now.machine.unwrap? ⟨1⟩ = some (.struct ⟨1⟩) ∧
            now.machine.proxyType? ⟨1⟩ = some "Room" ∧ now.machine.unwrap? ⟨2⟩ = none := by
  have closed : twoObjects.objects.Closed := by
    intro o
    obtain ⟨_ | _ | index⟩ := o
    · exact trivial
    · exact ⟨Nat.zero_lt_two, trivial⟩
    · exact trivial
  have run : Run ⟨twoObjects, [], []⟩ _ :=
    (((((((Relation.ReflTransGen.refl.tail (.newTable .empty)).tail
      (.proxy ⟨0⟩ (.ptr (some ⟨0⟩)) Nat.zero_lt_one List.not_mem_nil Nat.zero_lt_two)).tail
        (.collect fun _ => false)).tail (.newTable .empty)).tail
          (.proxy ⟨1⟩ (.struct ⟨1⟩) Nat.one_lt_two (by decide) Nat.one_lt_two)).tail
            (.newTable .empty)).tail
              (.write #[.empty, { Table.empty with metatable := some ⟨2⟩ },
                { Table.empty with metatable := some ⟨1⟩ }] rfl))
  have identified := proxies_identify rfl closed run
  obtain ⟨unwrapped, -, type⟩ := identified.1 ⟨1⟩ (.struct ⟨1⟩) (by simp [proxied, collected])
    (by decide)
  exact ⟨_, run, rfl, rfl, rfl, unwrapped, type, (identified.2.1 ⟨2⟩ (by decide)).1⟩

end Chronicle

end ScriptHost
