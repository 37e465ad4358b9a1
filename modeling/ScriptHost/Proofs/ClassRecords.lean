import ScriptHost.Proofs.ClassCalls

/-!
# Objects of classes as records

Scripts make objects of classes, assign tables to them and read their fields, through any proxies of
the same objects.  The log of a run says which objects were made and what each assignment brought to
which object.  An object is a record: the default one of its class, after each assignment of the log
to that object in turn.  What else happens between two calls, as long as it is no business of the
host, makes no difference.
-/

namespace ScriptHost

open MachineM

/-- A value that fits a field of some kind, and what the field takes of it. -/
inductive Fits : FieldKind → HostValue → HostValue → Prop where
  | str (s : String) : Fits .str (.str s) (.str s)
  | int (i : Int64) : Fits .int (.int i) (.int i)
  | float (x : Binary64) : Fits .float (.float x) (.float x)
  | widened (i : Int64) : Fits .float (.int i) (.float (.ofInt64 i))
  | bool (b : Bool) : Fits .bool (.bool b) (.bool b)

theorem fitted?_eq_some_iff {kind : FieldKind} {v taken : HostValue} :
    Crossing.fitted? kind v = some taken ↔ Fits kind v taken := by
  constructor
  · intro fitted
    cases kind <;> cases v <;> cases fitted <;> constructor
  · intro fits
    cases fits <;> rfl

namespace ClassRecords

/-- What happens to objects. -/
inductive Event where
  | made (o : ObjectId) (info : HostClass)
  | assigned (o : ObjectId) (taken : Field → Option HostValue)

namespace Event

/-- The object that was made. -/
def made? : Event → Option ObjectId
  | made o _ => some o
  | assigned .. => none

/-- What becomes of one object. -/
def apply (o : ObjectId) (i : Instance) : Event → Instance
  | made p info => if p = o then { shape := info.shape, fields := info.initial } else i
  | assigned p taken =>
    if p = o then { i with fields := updated i.shape.fields i.fields taken } else i

end Event

/-- The objects that were made, in order. -/
def made (log : List Event) : List ObjectId := log.filterMap Event.made?

/-- What has become of one object that once was as given. -/
def record (o : ObjectId) (first : Instance) (log : List Event) : Instance :=
  log.foldl (Event.apply o) first

/-- The table of a class holds a function that assigns tables. -/
def Assigns (t : Machine) (home : TableId) : Prop :=
  ∃ g policy, t.held home "set" = .function g ∧
    t.functions[g.index]? = some (.native (.classSet policy))

/-- A run of the functions of classes, with other things in between that leave the objects alone. -/
inductive Run (s : Machine) : List Event → Machine → Prop where
  | start : Run s [] s
  | idle {log : List Event} {t u : Machine} (run : Run s log t) (objects : u.objects = t.objects)
      (sound : u.Sound) : Run s log u
  | get {log : List Event} {t u : Machine} {depth : Nat} {site : CallSite} {f : FunctionId}
      {i : TableId} {results : List Value} (run : Run s log t)
      (found : t.functions[f.index]? = some (.native .classGet))
      (called : (Calls.callAt depth site (.function f) [.table i]).runOn t = (.ok results, u)) :
      Run s log u
  | set {log : List Event} {t u : Machine} {depth : Nat} {site : CallSite} {f : FunctionId}
      {policy : AssignPolicy} {i values : TableId} {o : ObjectId} {results : List Value}
      (run : Run s log t) (found : t.functions[f.index]? = some (.native (.classSet policy)))
      (proxy : t.Represents i o) (declared : (t.objects.get o).Declared)
      (called : (Calls.callAt depth site (.function f) [.table i, .table values]).runOn t =
        (.ok results, u)) :
      Run s (log ++ [.assigned o (t.brought values)]) u
  | new {log : List Event} {t u : Machine} {depth : Nat} {site : CallSite} {f : FunctionId}
      {info : HostClass} {home i : TableId} {init : Option TableId} {o : ObjectId}
      (run : Run s log t) (found : t.functions[f.index]? = some (.native (.classNew info)))
      (declared : info.Declared) (setter : init.isSome → Assigns t home)
      (called : (Calls.callAt depth site (.function f)
        (.table home :: (init.map Value.table).toList)).runOn t = (.ok [.table i], u))
      (proxy : u.Represents i o) :
      Run s (log ++
        .made o info :: (init.map fun values => .assigned o (t.brought values)).toList) u

/-- An object of a declared type that was there at the start, or that was made. -/
def Tracked (s : Machine) (log : List Event) (o : ObjectId) : Prop :=
  (o.index < s.objects.size ∧ (s.objects.get o).Declared) ∨ o ∈ made log

section

variable {s t u : Machine} {log more : List Event} {o p : ObjectId} {info : HostClass}
  {taken : Field → Option HostValue} {first : Instance}

theorem record_append : record o first (log ++ more) = record o (record o first log) more :=
  List.foldl_append

theorem made_append : made (log ++ more) = made log ++ made more := List.filterMap_append

/-- What an object of a declared type becomes is of a declared type. -/
theorem record_declared (declared : first.Declared)
    (classes : ∀ o info, Event.made o info ∈ log → info.Declared) :
    (record o first log).Declared := by
  induction log generalizing first with
  | nil => exact declared
  | cons e rest ih =>
    refine ih ?_ fun o info among => classes o info (List.mem_cons_of_mem _ among)
    cases e with
    | made p info =>
      have fresh := classes p info List.mem_cons_self
      rw [Event.apply]
      split
      · exact ⟨fresh.shape, fresh.full⟩
      · exact declared
    | assigned p taken =>
      rw [Event.apply]
      split
      · refine ⟨declared.shape, ?_⟩
        rw [length_updated, declared.full, Nat.min_self]
      · exact declared

/-- The objects of a run, after the events of its log. -/
structure Accounts (s : Machine) (log : List Event) (t : Machine) : Prop where
  sound : t.Sound
  size : s.objects.size ≤ t.objects.size
  fresh : ∀ o ∈ made log, s.objects.size ≤ o.index ∧ o.index < t.objects.size
  distinct : (made log).Nodup
  objects : ∀ o, o.index < s.objects.size ∨ o ∈ made log →
    t.objects.get o = record o (s.objects.get o) log
  classes : ∀ o info, .made o info ∈ log → info.Declared

namespace Accounts

theorem start (sound : s.Sound) : Accounts s [] s where
  sound := sound
  size := Nat.le_refl _
  fresh := nofun
  distinct := List.nodup_nil
  objects _ _ := rfl
  classes := nofun

/-- The objects of the log are among those of the machine. -/
theorem inside (accounts : Accounts s log t) (known : o.index < s.objects.size ∨ o ∈ made log) :
    o.index < t.objects.size :=
  known.elim (Nat.lt_of_lt_of_le · accounts.size) fun among => (accounts.fresh o among).2

/-- Objects that nothing tells of may be added. -/
theorem later (accounts : Accounts s log t) (sound : u.Sound)
    (more : t.objects.Extends u.objects) : Accounts s log u where
  sound := sound
  size := Nat.le_trans accounts.size more.size_le
  fresh o among :=
    (accounts.fresh o among).imp_right fun inside => Nat.lt_of_lt_of_le inside more.size_le
  distinct := accounts.distinct
  objects o known := (more.get (accounts.inside known)).trans (accounts.objects o known)
  classes := accounts.classes

theorem made_step (accounts : Accounts s log t) (declared : info.Declared) (sound : u.Sound)
    (objects : u.objects = (t.objects.add { shape := info.shape, fields := info.initial }).2) :
    Accounts s (log ++ [.made ⟨t.objects.size⟩ info]) u := by
  have names : made (log ++ [.made ⟨t.objects.size⟩ info]) = made log ++ [⟨t.objects.size⟩] :=
    made_append
  have size : u.objects.size = t.objects.size + 1 := by rw [objects, Objects.size_add]
  refine ⟨sound, ?_, ?_, ?_, ?_, ?_⟩
  · rw [size]
    exact Nat.le_succ_of_le accounts.size
  · intro o among
    rw [names] at among
    rw [size]
    rcases List.mem_append.1 among with old | new
    · exact (accounts.fresh o old).imp_right Nat.lt_succ_of_lt
    · obtain rfl := List.mem_singleton.1 new
      exact ⟨accounts.size, Nat.lt_succ_self _⟩
  · rw [names]
    refine List.nodup_append.2 ⟨accounts.distinct, List.nodup_singleton _, ?_⟩
    intro o old p new same
    obtain rfl := List.mem_singleton.1 new
    exact Nat.lt_irrefl _ (same ▸ (accounts.fresh o old).2)
  · intro o known
    rw [record_append, objects]
    by_cases new : (⟨t.objects.size⟩ : ObjectId) = o
    · subst new
      exact (Objects.get_add_self _ _).trans (if_pos rfl).symm
    · have old : o.index < s.objects.size ∨ o ∈ made log := by
        refine known.imp_right fun among => ?_
        rw [names] at among
        exact (List.mem_append.1 among).resolve_right fun last =>
          new (List.mem_singleton.1 last).symm
      rw [Objects.get_add_of_lt _ _ (accounts.inside old), accounts.objects o old]
      exact (if_neg new).symm
  · intro o class' among
    rcases List.mem_append.1 among with old | new
    · exact accounts.classes o class' old
    · cases List.mem_singleton.1 new
      exact declared

theorem assigned_step (accounts : Accounts s log t) (sound : u.Sound)
    (objects : u.objects = t.objects.put o (updated (t.objects.get o).shape.fields
      (t.objects.get o).fields taken)) : Accounts s (log ++ [.assigned o taken]) u := by
  have names : made (log ++ [.assigned o taken]) = made log :=
    made_append.trans (List.append_nil _)
  have size : u.objects.size = t.objects.size := by rw [objects, Objects.size_put]
  refine ⟨sound, ?_, ?_, ?_, ?_, ?_⟩
  · rw [size]
    exact accounts.size
  · rw [names, size]
    exact accounts.fresh
  · rw [names]
    exact accounts.distinct
  · intro p known
    rw [names] at known
    rw [record_append, objects, ← accounts.objects p known]
    by_cases same : o = p
    · subst same
      exact (Objects.get_put_self _ (accounts.inside known)).trans (if_pos rfl).symm
    · exact (Objects.get_put_of_ne _ (Ne.symm same)).trans (if_neg same).symm
  · intro p info among
    rcases List.mem_append.1 among with old | new
    · exact accounts.classes p info old
    · cases List.mem_singleton.1 new

/-- What an object of a declared type has become is of a declared type. -/
theorem declared (accounts : Accounts s log t) (tracked : Tracked s log o) :
    (record o (s.objects.get o) log).Declared := by
  refine record_declared ?_ accounts.classes
  rcases tracked with ⟨-, declared⟩ | among
  · exact declared
  · rw [Objects.get_of_le (accounts.fresh o among).1]
    exact ⟨⟨List.nodup_nil, nofun⟩, rfl⟩

end Accounts

/-- What a run leaves of the objects is what its log says. -/
theorem Run.accounts (sound : s.Sound) (run : Run s log t) : Accounts s log t := by
  induction run with
  | start => exact .start sound
  | idle _ objects later ih => exact ih.later later (objects ▸ .refl _)
  | get _ found called ih =>
    obtain ⟨_, _, -, -, -, later, more⟩ := Calls.callAt_classGet_ok ih.sound found called
    exact ih.later later more
  | set _ found proxy declared called ih =>
    obtain ⟨keeps, objects⟩ := Calls.callAt_classSet_ok found called proxy declared
    exact ih.assigned_step (keeps.sound ih.sound) objects
  | @new log t u depth site f info home i init o _ found declared setter called proxy ih =>
    have fresh := Machine.created_represents (s := t) info home
    cases init with
    | none =>
      obtain ⟨same, keeps, objects⟩ := Calls.callAt_classNew_ok found called
      cases same
      obtain rfl := proxy.unique (keeps.represents.2 fresh)
      exact ih.made_step declared (keeps.sound (Machine.created_sound info home ih.sound)) objects
    | some values =>
      obtain ⟨g, policy, set, assigns⟩ := setter rfl
      obtain ⟨same, keeps, objects⟩ :=
        Calls.callAt_classNew_table_ok ih.sound found declared set assigns called
      cases same
      obtain rfl := proxy.unique (keeps.represents.2 fresh)
      have between := ih.made_step declared (Machine.created_sound info home ih.sound) rfl
      have there : (t.created info home).objects.get ⟨t.objects.size⟩ =
          { shape := info.shape, fields := info.initial } := Objects.get_add_self _ _
      have both := between.assigned_step (o := ⟨t.objects.size⟩) (keeps.sound between.sound)
        (objects.trans (by rw [there]; rfl))
      rwa [List.append_assoc] at both

end

/-- What a field takes of a table is what the value under its name is for the host, if that fits. -/
theorem brought_eq_some_iff {t u : Machine} {values : TableId} {f : Field} {v taken : HostValue}
    (converted : (Crossing.toHost (t.held values f.name)).runOn t = (.ok v, u)) :
    t.brought values f = some taken ↔ f.isPublic = true ∧ Fits f.kind v taken := by
  have same : t.brought values f = if f.isPublic then Crossing.fitted? f.kind v else none := by
    rw [(Crossing.toHost_ok converted).1.fitted?]
    rfl
  rw [same, ← fitted?_eq_some_iff]
  cases f.isPublic <;> simp

/--
After any run an object is the record that the log makes of it, whoever's proxies it was reached
through.  What `get` gives for any proxy of it is a new table with its public fields and nothing
else.  What `new` gives is a proxy for an object that was not there before.  A field takes of a
table what is under its own name, if that converts to a value that fits.
-/
theorem Run.records {s t : Machine} {log : List Event} (sound : s.Sound) (run : Run s log t) :
    ((made log).Nodup ∧ ∀ o ∈ made log, s.objects.size ≤ o.index) ∧
      (∀ o, Tracked s log o → ∀ now, record o (s.objects.get o) log = now →
        t.objects.get o = now ∧
          ∀ depth site (f : FunctionId) i results u,
            t.functions[f.index]? = some (.native .classGet) → t.Represents i o →
              (Calls.callAt depth site (.function f) [.table i]).runOn t = (.ok results, u) →
                ∃ id, results = [.table id] ∧
                  t.FieldTable id u (publicRows now.shape.fields now.fields)) ∧
      (∀ depth site (f : FunctionId) (info : HostClass) home (init : Option TableId) results u,
        t.functions[f.index]? = some (.native (.classNew info)) → info.Declared →
          (init.isSome → Assigns t home) →
            (Calls.callAt depth site (.function f)
              (.table home :: (init.map Value.table).toList)).runOn t = (.ok results, u) →
                ∃ i o, results = [.table i] ∧ u.Represents i o ∧ t.objects.size ≤ o.index) ∧
      ∀ (m u : Machine) values (f : Field) v,
        (Crossing.toHost (m.held values f.name)).runOn m = (.ok v, u) →
          ∀ taken, m.brought values f = some taken ↔ f.isPublic = true ∧ Fits f.kind v taken := by
  have accounts := run.accounts sound
  refine ⟨⟨accounts.distinct, fun o among => (accounts.fresh o among).1⟩, ?_, ?_,
    fun m u values f v converted taken => brought_eq_some_iff converted⟩
  · rintro o tracked _ rfl
    have same := accounts.objects o (tracked.imp_left And.left)
    refine ⟨same, fun depth site f i results u found proxy called => ?_⟩
    obtain ⟨p, id, also, rfl, holds, -⟩ := Calls.callAt_classGet_ok accounts.sound found called
    obtain rfl := proxy.unique also
    rw [same] at holds
    exact ⟨id, rfl, holds (accounts.declared tracked).shape.distinct⟩
  · intro depth site f info home init results u found declared setter called
    have fresh := Machine.created_represents (s := t) info home
    cases init with
    | none =>
      obtain ⟨rfl, keeps, -⟩ := Calls.callAt_classNew_ok found called
      exact ⟨_, _, rfl, keeps.represents.2 fresh, Nat.le_refl _⟩
    | some values =>
      obtain ⟨g, policy, set, assigns⟩ := setter rfl
      obtain ⟨rfl, keeps, -⟩ :=
        Calls.callAt_classNew_table_ok accounts.sound found declared set assigns called
      exact ⟨_, _, rfl, keeps.represents.2 fresh, Nat.le_refl _⟩

/-- Lamps have a level that scripts see and a secret that they do not. -/
def lampClass : HostClass where
  shape := ⟨"Lamp", "", [.visible "level" .int .int64, .hidden "secret" .int64]⟩
  initial := [.int 1, .int 7]

theorem lampClass_declared : lampClass.Declared where
  shape := ⟨by decide, by decide⟩
  full := rfl

/-- A table that brings lamps a level. -/
def levels : Table := Table.empty.set (.text "level") (.int 3)

/-- The functions of the class of lamps, its table, and one that lamps may take. -/
def lampShop : Machine where
  functions := #[.native .classGet, .native (.classSet .lenient), .native (.classNew lampClass)]
  tables := #[.empty, levels]

/-- The machine after a lamp was made. -/
def lampShopWithLamp : Machine :=
  ((Calls.callAt 1 { slot := some 0 } (.function ⟨2⟩) [.table ⟨0⟩]).runOn lampShop).2

theorem assign_levels (frames : List Frame) :
    (Crossing.assign ⟨0⟩ ⟨1⟩ .lenient).runOn { lampShopWithLamp with frames } =
      (.ok (), { lampShopWithLamp with
        frames, objects := lampShopWithLamp.objects.put ⟨0⟩ [.int 3, .int 7] }) := by
  have pairs : levels.live = [(.text "level", .int 3)] :=
    Table.live_of_single (.text "level") (v := .int 3) nofun fun other => by
      rw [levels, Table.get_set, Table.get_empty]
  rw [Crossing.assign, runOn_bind_ok (runOn_table _ _)]
  have there : ({ lampShopWithLamp with frames }.tables[1]?.getD default) = levels := rfl
  rw [there, pairs]
  rfl

/-- The machine after the lamp took the table. -/
def lampShopWithLevel : Machine :=
  { lampShopWithLamp with objects := lampShopWithLamp.objects.put ⟨0⟩ [.int 3, .int 7] }

theorem set_levels :
    (Calls.callAt 1 { slot := some 0 } (.function ⟨1⟩) [.table ⟨2⟩, .table ⟨1⟩]).runOn
      lampShopWithLamp = (.ok [], lampShopWithLevel) := by
  have setter : lampShopWithLamp.functions[1]? = some (.native (.classSet .lenient)) := rfl
  have called : ∃ start ≤ _, (Calls.callAt 1 { slot := some 0 } (.function ⟨1⟩)
      [.table ⟨2⟩, .table ⟨1⟩]).runOn lampShopWithLamp = _ :=
    Calls.callAt_native setter [.table ⟨2⟩, .table ⟨1⟩] rfl (by decide)
  obtain ⟨start, -, called⟩ := called
  rw [called, ScriptM.runOn_inFrame, Calls.native_classSet Calls.crosses_tables,
    ScriptM.runOn_ofHost, Published.runOn_classSet (o := ⟨0⟩) (.inr rfl),
    runOn_bind_ok (Published.runOn_crossed_eq_ok.2 (assign_levels _))]
  rfl

/--
A lamp is made, takes a table through one of its proxies, and shows the level that the table
brought.
-/
theorem Run.records_lamp : ∃ log t id u, Run lampShop log t ∧ made log = [⟨0⟩] ∧
    (Calls.callAt 1 { slot := some 0 } (.function ⟨0⟩) [.table ⟨2⟩]).runOn t =
      (.ok [.table id], u) ∧
    t.FieldTable id u [(.visible "level" .int .int64, .int 3)] := by
  have called : (Calls.callAt 1 { slot := some 0 } (.function ⟨2⟩)
      (.table ⟨0⟩ :: (none.map Value.table).toList)).runOn lampShop =
        (.ok [.table ⟨2⟩], lampShopWithLamp) := rfl
  have unneeded : (none : Option TableId).isSome → Assigns lampShop ⟨0⟩ := nofun
  have first : Run lampShop [.made ⟨0⟩ lampClass] lampShopWithLamp :=
    .new .start rfl lampClass_declared unneeded called (.inr rfl)
  have run : Run lampShop [.made ⟨0⟩ lampClass, .assigned ⟨0⟩ (lampShopWithLamp.brought ⟨1⟩)]
      lampShopWithLevel :=
    .set first rfl (.inr rfl) ⟨lampClass_declared.shape, rfl⟩ set_levels
  obtain ⟨-, shown, -⟩ := run.records fun _ among => absurd among List.not_mem_nil
  obtain ⟨same, gets⟩ := shown ⟨0⟩ (.inr List.mem_cons_self) _ rfl
  obtain ⟨id, one, table⟩ := gets 1 { slot := some 0 } ⟨0⟩ ⟨2⟩ [.table ⟨3⟩] _ rfl (.inr rfl) rfl
  cases one
  refine ⟨_, _, _, _, run, rfl, rfl, ?_⟩
  rw [← same] at table
  exact table

end ClassRecords

end ScriptHost
