import ScriptHost.Proofs.PrivateFields

/-!
# Private fields stay on their side

Nothing that crosses to scripts tells two heaps apart that look alike: values, displayed texts, the
fields that are read and the tables of the class operation `get` are the same, and heaps that look
alike are left.  An assignment ends in the same way on both and leaves private fields as they are,
whatever names its table has.
-/

namespace ScriptHost

/-- A machine and another one whose objects differ in private fields at most. -/
def Machine.LookAlike (s t : Machine) : Prop :=
  ∃ objects, s.objects.LookAlike objects ∧ t = { s with objects }

theorem Machine.LookAlike.unwrap? {s t : Machine} (alike : s.LookAlike t) (id : TableId) :
    t.unwrap? id = s.unwrap? id := by
  obtain ⟨objects, -, rfl⟩ := alike
  rfl

theorem Machine.LookAlike.shape {s t : Machine} (alike : s.LookAlike t) (o : ObjectId) :
    (t.objects.get o).shape = (s.objects.get o).shape := by
  obtain ⟨objects, looks, rfl⟩ := alike
  exact looks.shape o

namespace MachineM

variable {ε α α' : Type} {R : α → α' → Prop}

/-- Computations that tell no two machines apart that look alike. -/
abbrev Discreet (R : α → α' → Prop) (m : MachineM ε α) (n : MachineM ε α') : Prop :=
  RunAlike Machine.LookAlike R m n

theorem discreet_iff {m : MachineM ε α} {n : MachineM ε α'} :
    Discreet R m n ↔ ∀ s t : Machine, s.LookAlike t →
      EndAlike R (m.runOn s).1 (n.runOn t).1 ∧ (m.runOn s).2.LookAlike (n.runOn t).2 := Iff.rfl

theorem Discreet.fail (e : ε) : Discreet R (MachineM.fail e : MachineM ε α) (MachineM.fail e) :=
  RunAlike.throw (Stop.error e)

/-- A computation that neither reads nor writes objects is discreet. -/
theorem Discreet.of_unaware {m : MachineM ε α}
    (unaware : ∀ s objects, m.runOn { s with objects } =
      ((m.runOn s).1, { (m.runOn s).2 with objects }))
    (keeps : ∀ s, (m.runOn s).2.objects = s.objects) : Discreet Eq m m := by
  rw [discreet_iff]
  rintro s _ ⟨objects, alike, rfl⟩
  rw [unaware s objects]
  refine ⟨?_, objects, (keeps s).symm ▸ alike, rfl⟩
  cases (m.runOn s).1 with
  | ok a => exact .ok rfl
  | error stop => exact .error stop

theorem get_discreet : Discreet Machine.LookAlike (get : MachineM ε Machine) get := by
  intro s t alike
  exact ⟨.ok alike, alike⟩

theorem newTable_discreet (table : Table) :
    Discreet Eq (newTable table : MachineM ε TableId) (newTable table) :=
  .of_unaware (fun _ _ => rfl) fun _ => rfl

theorem table_discreet (id : TableId) : Discreet Eq (table id : MachineM ε Table) (table id) :=
  .of_unaware (fun _ _ => rfl) fun _ => rfl

theorem rawSet_discreet (id : TableId) (key v : Value) :
    Discreet Eq (rawSet id key v : MachineM ε Unit) (rawSet id key v) :=
  .of_unaware (fun _ _ => rfl) fun _ => rfl

theorem receive_discreet (v : Value) :
    Discreet Eq (ScriptM.receive v : MachineM ε Value) (ScriptM.receive v) := by
  cases v with
  | fault index =>
    refine RunAlike.bind_eq (Discreet.of_unaware (fun _ _ => rfl) fun _ => rfl) fun fault => ?_
    cases fault with
    | error e => exact .pure rfl
    | panic text =>
      cases text with
      | none => exact Discreet.of_unaware (fun _ _ => rfl) fun _ => rfl
      | some text => exact Discreet.of_unaware (fun _ _ => rfl) fun _ => rfl
  | _ => exact .pure rfl

/-- A computation of the host that is discreet stays so on the machine. -/
theorem onObjects_discreet (f : HostError → ε) {m : HostM α} {n : HostM α'}
    (discreet : HostM.Discreet R m n) : Discreet R (onObjects f m) (onObjects f n) := by
  rw [discreet_iff]
  rintro s _ ⟨objects, alike, rfl⟩
  obtain ⟨outcome, later⟩ := discreet s.objects objects alike
  rw [runOn_onObjects, runOn_onObjects]
  dsimp only
  refine ⟨?_, _, later, rfl⟩
  generalize (m.run.run s.objects).1 = left at outcome
  generalize (n.run.run objects).1 = right at outcome
  cases outcome with
  | ok related => exact .ok related
  | error stop => exact .error _

end MachineM

namespace Crossing

open MachineM

theorem markProxy_discreet (id : TableId) (handle : Handle) :
    Discreet Eq (markProxy id handle) (markProxy id handle) :=
  .of_unaware (fun _ _ => rfl) fun _ => rfl

theorem textKey_discreet (v : HostValue) : Discreet Eq (textKey v) (textKey v) :=
  onObjects_discreet CrossingError.host (HostM.textOf_discreet v)

/-! ## Values on their way to scripts -/

theorem proxyOfPointer_discreet (target : Option ObjectId) :
    Discreet Eq (proxyOfPointer target) (proxyOfPointer target) := by
  refine RunAlike.bind_eq (newTable_discreet _) fun id => ?_
  refine RunAlike.bind get_discreet ?_
  rintro s _ ⟨objects, alike, rfl⟩
  have same : (target.map fun o => (objects.get o).shape) =
      target.map fun o => (s.objects.get o).shape := by
    simp only [alike.shape]
  rw [same]
  exact RunAlike.bind_eq (markProxy_discreet _ _) fun _ => .pure rfl

theorem key_discreet (v : HostValue) : Discreet Eq (key v) (key v) := by
  cases v with
  | nil => exact Discreet.fail _
  | float x =>
    rw [key]
    split
    · exact Discreet.fail _
    · exact .pure rfl
  | ptr target =>
    cases target with
    | none => exact Discreet.fail _
    | some o => exact RunAlike.bind_eq (textKey_discreet _) fun _ => .pure rfl
  | bool b => exact .pure rfl
  | int i => exact .pure rfl
  | str s => exact .pure rfl
  | _ => exact RunAlike.bind_eq (textKey_discreet _) fun _ => .pure rfl

section

variable {object : ObjectId → CrossingM Value}

mutual

theorem value_discreet (objects : ∀ o, Discreet Eq (object o) (object o)) :
    ∀ v : HostValue, Discreet Eq (value object v) (value object v)
  | .nil | .bool _ | .int _ | .float _ | .str _ => by
    rw [value]
    exact .pure rfl
  | .list items => by
    rw [value]
    exact RunAlike.bind_eq (newTable_discreet _) fun id =>
      RunAlike.bind_eq (putItems_discreet objects id 1 items) fun _ => .pure rfl
  | .map pairs => by
    rw [value]
    exact RunAlike.bind_eq (newTable_discreet _) fun id =>
      RunAlike.bind_eq (putPairs_discreet objects id pairs) fun _ => .pure rfl
  | .struct o => by
    rw [value]
    exact objects o
  | .ptr target => by
    rw [value]
    exact RunAlike.bind_eq (proxyOfPointer_discreet target) fun _ => .pure rfl
  | .foreign kind => by
    rw [value]
    exact Discreet.fail _

theorem putItems_discreet (objects : ∀ o, Discreet Eq (object o) (object o)) (id : TableId)
    (index : Nat) : ∀ items : List HostValue,
      Discreet Eq (putItems object id index items) (putItems object id index items)
  | [] => by
    rw [putItems]
    exact .pure rfl
  | item :: rest => by
    rw [putItems]
    exact RunAlike.bind_eq (value_discreet objects item) fun _ =>
      RunAlike.bind_eq (rawSet_discreet _ _ _) fun _ =>
        putItems_discreet objects id (index + 1) rest

theorem putPairs_discreet (objects : ∀ o, Discreet Eq (object o) (object o)) (id : TableId) :
    ∀ pairs : List (HostValue × HostValue),
    Discreet Eq (putPairs object id pairs) (putPairs object id pairs)
  | [] => by
    rw [putPairs]
    exact .pure rfl
  | (k, item) :: rest => by
    rw [putPairs]
    exact RunAlike.bind_eq (key_discreet k) fun _ =>
      RunAlike.bind_eq (value_discreet objects item) fun _ =>
        RunAlike.bind_eq (rawSet_discreet _ _ _) fun _ => putPairs_discreet objects id rest

end

mutual

theorem datum_discreet (objects : ∀ o, Discreet Eq (object o) (object o)) :
    ∀ {d other : Datum}, d.LookAlike other →
      Discreet Eq (datum object d) (datum object other)
  | _, _, .bool _ | _, _, .int _ | _, _, .size _ | _, _, .float _ | _, _, .text _
  | _, _, .absent => by
    rw [datum]
    exact .pure rfl
  | _, _, .object o => by
    rw [datum]
    exact RunAlike.bind_eq (proxyOfPointer_discreet _) fun _ => .pure rfl
  | _, _, .any v => by
    rw [datum]
    exact value_discreet objects v
  | _, _, .record fields => by
    rw [datum, datum]
    have copied := onObjects_discreet CrossingError.host (HostM.newObject_discreet _ fields)
    exact RunAlike.bind_eq copied fun copy => RunAlike.bind_eq (newTable_discreet _) fun id =>
        RunAlike.bind_eq (putFields_discreet objects id fields) fun _ =>
          RunAlike.bind_eq (markProxy_discreet _ _) fun _ => .pure rfl
  | _, _, .present content => by
    rw [datum, datum]
    exact datum_discreet objects content
  | _, _, .list each => by
    rw [datum, datum, each.length_eq]
    exact RunAlike.bind_eq (newTable_discreet _) fun id =>
      RunAlike.bind_eq (putData_discreet objects id 1 each) fun _ => .pure rfl
  | _, _, .map each => by
    rw [datum, datum]
    exact RunAlike.bind_eq (newTable_discreet _) fun id =>
      RunAlike.bind_eq (putEntries_discreet objects id each) fun _ => .pure rfl

theorem putData_discreet (objects : ∀ o, Discreet Eq (object o) (object o)) (id : TableId)
    (index : Nat) : ∀ {items others : List Datum},
    Datum.ItemsLookAlike items others →
      Discreet Eq (putData object id index items) (putData object id index others)
  | _, _, .nil => by
    rw [putData]
    exact .pure rfl
  | _, _, .cons first rest => by
    rw [putData, putData]
    exact RunAlike.bind_eq (datum_discreet objects first) fun _ =>
      RunAlike.bind_eq (rawSet_discreet _ _ _) fun _ => putData_discreet objects id (index + 1) rest

theorem putEntries_discreet (objects : ∀ o, Discreet Eq (object o) (object o)) (id : TableId) :
    ∀ {entries others : List (String × Datum)}, Datum.EntriesLookAlike entries others →
      Discreet Eq (putEntries object id entries) (putEntries object id others)
  | _, _, .nil => by
    rw [putEntries]
    exact .pure rfl
  | _, _, .cons first rest => by
    rw [putEntries, putEntries]
    exact RunAlike.bind_eq (datum_discreet objects first) fun _ =>
      RunAlike.bind_eq (rawSet_discreet _ _ _) fun _ => putEntries_discreet objects id rest

/-- A private field is passed over, whatever is stored in it. -/
theorem putFields_discreet (objects : ∀ o, Discreet Eq (object o) (object o)) (id : TableId) :
    ∀ {declared : List Field} {data others : List Datum},
      Datum.FieldsLookAlike declared data others →
      Discreet Eq (putFields object id declared data) (putFields object id declared others)
  | _, _, _, .nil => by
    rw [putFields]
    exact .pure rfl
  | _, _, _, .beyond data => by
    cases data with
    | nil =>
      rw [putFields]
      exact .pure rfl
    | cons d rest =>
      rw [putFields]
      exact .pure rfl
  | _, _, _, .shown isPublic first rest => by
    rw [putFields, putFields, if_pos isPublic, if_pos isPublic]
    exact RunAlike.bind_eq (datum_discreet objects first) fun _ =>
      RunAlike.bind_eq (rawSet_discreet _ _ _) fun _ => putFields_discreet objects id rest
  | _, _, _, .kept isPrivate _ _ rest => by
    rw [putFields, putFields, isPrivate]
    exact putFields_discreet objects id rest

end

end

theorem putObject_discreet {object : ObjectId → CrossingM Value}
    (objects : ∀ o, Discreet Eq (object o) (object o)) (id : TableId) (o : ObjectId) :
    Discreet Eq (putObject object id o) (putObject object id o) := by
  refine RunAlike.bind (onObjects_discreet CrossingError.host (HostM.readable_discreet o)) ?_
  intro i other alike
  rw [alike.shape]
  exact putFields_discreet objects id alike.fields

theorem proxyOfStruct_discreet (depth : Nat) (o : ObjectId) :
    Discreet Eq (proxyOfStruct depth o) (proxyOfStruct depth o) := by
  induction depth generalizing o with
  | zero =>
    rw [proxyOfStruct]
    exact .throw _
  | succ depth ih =>
    rw [proxyOfStruct]
    refine RunAlike.bind_eq (newTable_discreet _) fun id =>
      RunAlike.bind_eq (putObject_discreet ih id o) fun _ => RunAlike.bind get_discreet ?_
    rintro s _ ⟨objects, alike, rfl⟩
    dsimp only
    rw [alike.shape]
    exact RunAlike.bind_eq (markProxy_discreet _ _) fun _ => .pure rfl

theorem structure?_discreet (o : ObjectId) : Discreet Eq (structure? o) (structure? o) := by
  refine RunAlike.bind get_discreet ?_
  rintro s _ ⟨objects, alike, rfl⟩
  dsimp only
  rw [alike.size]
  exact proxyOfStruct_discreet _ o

theorem toScript_discreet (v : HostValue) : Discreet Eq (toScript v) (toScript v) :=
  value_discreet structure?_discreet v

theorem fieldTable_discreet (o : ObjectId) : Discreet Eq (fieldTable o) (fieldTable o) :=
  RunAlike.bind_eq (newTable_discreet _) fun id =>
    RunAlike.bind_eq (putObject_discreet structure?_discreet id o) fun _ => .pure rfl

/-! ## Values on their way to the host -/

theorem receiveEntry_discreet (entry : Value × Value) :
    Discreet Eq (receiveEntry entry) (receiveEntry entry) :=
  RunAlike.bind_eq (receive_discreet _) fun _ =>
    RunAlike.bind_eq (receive_discreet _) fun _ => .pure rfl

theorem mapM_discreet {α β : Type} {f : α → CrossingM β} (each : ∀ a, Discreet Eq (f a) (f a))
    (items : List α) : Discreet Eq (items.mapM f) (items.mapM f) := by
  induction items with
  | nil => exact .pure rfl
  | cons item rest ih =>
    rw [List.mapM_cons]
    exact RunAlike.bind_eq (each item) fun _ => RunAlike.bind_eq ih fun _ => .pure rfl

theorem contents_discreet {convert : Value → CrossingM HostValue}
    (each : ∀ v, Discreet Eq (convert v) (convert v)) (entries : List (Value × Value)) :
    Discreet Eq (contents convert entries) (contents convert entries) := by
  rw [contents]
  cases sequence? entries with
  | some items => exact RunAlike.bind_eq (mapM_discreet each items) fun _ => .pure rfl
  | none =>
    refine RunAlike.bind_eq (mapM_discreet (fun entry => ?_) entries) fun _ => .pure rfl
    exact RunAlike.bind_eq (each _) fun _ => RunAlike.bind_eq (textKey_discreet _) fun _ =>
      RunAlike.bind_eq (each _) fun _ => .pure rfl

theorem hostValue_discreet (depth : Nat) (passed : List TableId) (v : Value) :
    Discreet Eq (hostValue depth passed v) (hostValue depth passed v) := by
  induction depth generalizing passed v with
  | zero =>
    obtain ⟨id, rfl⟩ | done := table_or_done v
    · rw [hostValue_table_zero]
      refine RunAlike.bind get_discreet fun s t alike => ?_
      rw [alike.unwrap?]
      split
      · exact .pure rfl
      · split
        · exact Discreet.fail _
        · exact Discreet.fail _
    · obtain ⟨h, same⟩ := done 0 passed
      rw [same]
      exact .pure rfl
  | succ depth ih =>
    obtain ⟨id, rfl⟩ | done := table_or_done v
    · rw [hostValue_table_succ]
      refine RunAlike.bind get_discreet fun s t alike => ?_
      rw [alike.unwrap?]
      split
      · exact .pure rfl
      · split
        · exact Discreet.fail _
        · refine RunAlike.bind_eq (RunAlike.bind_eq (table_discreet id) fun t => ?_) fun found => ?_
          · exact mapM_discreet receiveEntry_discreet _
          · exact contents_discreet (ih (id :: passed)) found
    · obtain ⟨h, same⟩ := done (depth + 1) passed
      rw [same]
      exact .pure rfl

theorem toHost_discreet (v : Value) : Discreet Eq (toHost v) (toHost v) :=
  hostValue_discreet depthLimit [] v

theorem assignEntry_discreet (o : ObjectId) (policy : AssignPolicy) (k v : Value) :
    Discreet Eq (assignEntry o policy k v) (assignEntry o policy k v) := by
  cases k with
  | str bytes =>
    rw [assignEntry]
    refine RunAlike.bind get_discreet fun s t alike => ?_
    rw [alike.shape]
    cases (s.objects.get o).shape.publicField? (Utf8.decode bytes) with
    | none => exact .pure rfl
    | some field =>
      dsimp only
      split
      · exact RunAlike.bind (R := fun _ _ => False) (Discreet.fail _) fun _ _ => False.elim
      · refine RunAlike.bind_eq (toHost_discreet v) fun found => ?_
        cases fits : fitted? field.kind found with
        | some scalar =>
          exact onObjects_discreet CrossingError.host
            (HostM.setField_discreet o _ (Machine.fitted?_isScalar fits))
        | none =>
          cases policy with
          | lenient => exact .pure rfl
          | strict => exact Discreet.fail _
  | _ => exact .pure rfl

theorem assignPairs_discreet (o : ObjectId) (policy : AssignPolicy) (pairs : List (Value × Value)) :
    Discreet Eq (assignPairs o policy pairs) (assignPairs o policy pairs) := by
  induction pairs with
  | nil => exact .pure rfl
  | cons pair rest ih =>
    refine RunAlike.bind_eq ?_ fun _ => ih
    exact RunAlike.bind_eq (receiveEntry_discreet pair) fun taken =>
      assignEntry_discreet o policy _ _

theorem assign_discreet (o : ObjectId) (id : TableId) (policy : AssignPolicy) :
    Discreet Eq (assign o id policy) (assign o id policy) :=
  RunAlike.bind_eq (table_discreet id) fun t => assignPairs_discreet o policy t.live

end Crossing

namespace Published

open MachineM

theorem crossed_discreet {α : Type} {m : CrossingM α} (discreet : Discreet Eq m m) :
    Discreet Eq (crossed m) (crossed m) := by
  rw [discreet_iff]
  intro s t alike
  obtain ⟨outcome, later⟩ := discreet_iff.1 discreet s t alike
  rw [crossed, runOn_mapError, runOn_mapError]
  refine ⟨?_, later⟩
  dsimp only
  generalize (m.runOn s).1 = left at outcome
  generalize (m.runOn t).1 = right at outcome
  cases outcome with
  | ok same => exact .ok same
  | error stop => exact .error _

theorem receiver_discreet (v : Option Value) : Discreet Eq (receiver v) (receiver v) := by
  refine RunAlike.bind get_discreet fun s t alike => ?_
  cases v with
  | none => exact Discreet.fail _
  | some v =>
    cases v with
    | table id =>
      dsimp only
      rw [alike.unwrap?]
      split
      · exact .pure rfl
      · exact .pure rfl
      · exact Discreet.fail _
    | _ => exact Discreet.fail _

theorem classGet_discreet (args : List Value) : Discreet Eq (classGet args) (classGet args) := by
  rw [classGet]
  split
  · exact RunAlike.bind (R := fun _ _ => False) (Discreet.fail _) fun _ _ => False.elim
  · exact RunAlike.bind_eq (receiver_discreet _) fun o =>
      RunAlike.bind_eq (crossed_discreet (Crossing.fieldTable_discreet o)) fun _ => .pure rfl

theorem classSet_discreet (policy : AssignPolicy) (args : List Value) :
    Discreet Eq (classSet policy args) (classSet policy args) := by
  refine RunAlike.bind_eq (receiver_discreet _) fun o => ?_
  cases args.tail.head? with
  | none => exact Discreet.fail _
  | some v =>
    cases v with
    | table id =>
      exact RunAlike.bind_eq (crossed_discreet (Crossing.assign_discreet o id policy)) fun _ =>
        .pure rfl
    | _ => exact Discreet.fail _

end Published

/-! ## What an assignment leaves alone -/

/-- The private fields of an object with their stored values, in order of declaration. -/
def Instance.privateFields (i : Instance) : List (String × Datum) :=
  (i.shape.fields.zip i.fields).filterMap fun (field, d) =>
    if field.isPublic then none else some (field.name, d)

/-- A heap after public fields of its objects were written. -/
structure Objects.KeepsPrivate (a b : Objects) : Prop where
  size : b.size = a.size
  shapes : ∀ o : ObjectId, (b.get o).shape = (a.get o).shape
  fields : ∀ o : ObjectId, (b.get o).privateFields = (a.get o).privateFields

namespace Objects.KeepsPrivate

variable {a b c : Objects}

theorem refl (a : Objects) : a.KeepsPrivate a := ⟨rfl, fun _ => rfl, fun _ => rfl⟩

theorem trans (first : a.KeepsPrivate b) (second : b.KeepsPrivate c) : a.KeepsPrivate c := by
  constructor
  · exact second.size.trans first.size
  · intro o
    exact (second.shapes o).trans (first.shapes o)
  · intro o
    exact (second.fields o).trans (first.fields o)

end Objects.KeepsPrivate

/-- Where the first field of a name is public, storing under the name passes private fields over. -/
theorem Instance.privateRows_setStored {name : String} {found : Field} (new : Datum)
    (isPublic : found.isPublic = true) {declared : List Field} (data : List Datum)
    (first : declared.find? (·.name = name) = some found) :
    ((declared.zip (setStored name new declared data)).filterMap fun (field, d) =>
        if field.isPublic then none else some (field.name, d)) =
      (declared.zip data).filterMap fun (field, d) =>
        if field.isPublic then none else some (field.name, d) := by
  induction declared generalizing data with
  | nil => cases first
  | cons field rest ih =>
    cases data with
    | nil => rfl
    | cons d data =>
      rw [setStored]
      by_cases here : field.name = name
      · rw [List.find?_cons_of_pos (by simpa using here)] at first
        cases first
        rw [if_pos here, List.zip_cons_cons, List.zip_cons_cons,
          List.filterMap_cons_none (by simp [isPublic]),
          List.filterMap_cons_none (by simp [isPublic])]
      · rw [List.find?_cons_of_neg (by simpa using here)] at first
        rw [if_neg here, List.zip_cons_cons, List.zip_cons_cons, List.filterMap_cons,
          List.filterMap_cons, ih data first]

theorem HostM.setField_keepsPrivate {o : ObjectId} {name : String} {v : HostValue}
    (scalar : v.isScalar = true) (objects : Objects) :
    objects.KeepsPrivate ((setField o name v).runOn objects).2 := by
  rcases run : (setField o name v).runOn objects with ⟨stop | done, after⟩
  · rw [objects_of_setField_stop scalar run]
    exact .refl objects
  · obtain ⟨field, d, found, -, rfl⟩ := runOn_setField_ok scalar run
    obtain ⟨first, isPublic⟩ := Option.filter_eq_some_iff.1 found
    refine ⟨Objects.size_put .., fun p => Objects.shape_put .., fun p => ?_⟩
    refine Objects.apply_get_set Instance.privateFields ?_ p
    exact Instance.privateRows_setStored d isPublic _ first

namespace MachineM

/-- A computation that changes no private field, however it ends. -/
def Withholds {ε α : Type} (m : MachineM ε α) : Prop :=
  ∀ s : Machine, s.objects.KeepsPrivate (m.runOn s).2.objects

variable {ε α β : Type} {m : MachineM ε α}

theorem Withholds.of_spares (spares : m.Spares) : m.Withholds := by
  intro s
  obtain ⟨faults, after⟩ := spares s
  rw [after]
  exact .refl _

theorem Withholds.bind {f : α → MachineM ε β} (first : m.Withholds)
    (rest : ∀ a, (f a).Withholds) : (m >>= f).Withholds := by
  intro s
  have before := first s
  rw [runOn_bind]
  rcases run : m.runOn s with ⟨stop | a, t⟩
  · rw [run] at before
    exact before
  · rw [run] at before
    exact before.trans (rest a t)

end MachineM

namespace Crossing

open MachineM

theorem assignEntry_withholds (o : ObjectId) (policy : AssignPolicy) (k v : Value) :
    (assignEntry o policy k v).Withholds := by
  cases k with
  | str bytes =>
    intro s
    rw [assignEntry, runOn_bind_ok (runOn_get s)]
    cases (s.objects.get o).shape.publicField? (Utf8.decode bytes) with
    | none => exact .refl _
    | some field =>
      dsimp only
      split
      · exact .refl _
      · refine Withholds.bind (.of_spares (toHost_spares v)) (fun found => ?_) s
        cases fits : fitted? field.kind found with
        | some scalar =>
          intro t
          dsimp only
          rw [runOn_onObjects]
          exact HostM.setField_keepsPrivate (Machine.fitted?_isScalar fits) t.objects
        | none =>
          cases policy with
          | lenient => exact .of_spares (.pure _)
          | strict => exact .of_spares (.fail _)
  | _ => exact .of_spares (.pure _)

theorem assignPairs_withholds (o : ObjectId) (policy : AssignPolicy)
    (pairs : List (Value × Value)) : (assignPairs o policy pairs).Withholds := by
  induction pairs with
  | nil => exact .of_spares (.pure _)
  | cons pair rest ih =>
    refine Withholds.bind ?_ fun _ => ih
    exact .bind (.of_spares (receiveEntry_spares pair)) fun taken =>
      assignEntry_withholds o policy _ _

end Crossing

namespace Published

open MachineM

theorem receiver_spares (v : Option Value) : (receiver v).Spares := by
  intro s
  refine ⟨s.faults, ?_⟩
  rw [receiver, runOn_bind_ok (runOn_get s)]
  cases v with
  | none => rfl
  | some v =>
    cases v with
    | table id =>
      dsimp only
      split <;> rfl
    | _ => rfl

/-- The class operation `set` changes no private field, whatever it is given and however it ends. -/
theorem classSet_withholds (policy : AssignPolicy) (args : List Value) :
    (classSet policy args).Withholds := by
  refine .bind (.of_spares (receiver_spares _)) fun o => ?_
  cases args.tail.head? with
  | none => exact .of_spares (.fail _)
  | some v =>
    cases v with
    | table id =>
      refine .bind (fun s => ?_) fun _ => .of_spares (.pure _)
      rw [crossed, runOn_mapError, Crossing.runOn_assign]
      exact Crossing.assignPairs_withholds o policy _ s
    | _ => exact .of_spares (.fail _)

end Published

/-! ## Both together -/

/-- A computation that ends the same from two states, and leaves states that are related. -/
def RunSame {σ ε α : Type} (Q : σ → σ → Prop) (m : ExceptT ε (StateM σ) α) (s t : σ) : Prop :=
  (m.run.run t).1 = (m.run.run s).1 ∧ Q (m.run.run s).2 (m.run.run t).2

theorem RunAlike.same {σ ε α : Type} {Q : σ → σ → Prop} {m : ExceptT ε (StateM σ) α} {s t : σ}
    (alike : RunAlike Q Eq m m) (states : Q s t) : RunSame Q m s t := by
  obtain ⟨outcome, after⟩ := alike s t states
  refine ⟨?_, after⟩
  generalize (m.run.run s).1 = left at outcome
  generalize (m.run.run t).1 = right at outcome
  cases outcome with
  | ok same => rw [same]
  | error e => rfl

namespace Machine

/--
Two machines whose objects differ in private fields at most are the same for scripts and for the
host: values on their way to scripts, displayed texts, fields read by name, all public fields, and
the class operations `get` and `set`, whatever these are given.  Private fields are not changed by
`set` either, however it ends.
-/
theorem private_fields_withheld {s t : Machine} (alike : s.LookAlike t) :
    (∀ v, RunSame LookAlike (Crossing.toScript v) s t) ∧
    (∀ v, t.objects.text v = s.objects.text v ∧ t.objects.debugText v = s.objects.debugText v) ∧
    (∀ o name, RunSame Objects.LookAlike (HostM.field o name) s.objects t.objects) ∧
    (∀ o, RunSame Objects.LookAlike (HostM.publicFields o) s.objects t.objects) ∧
    (∀ args, RunSame LookAlike (Published.classGet args) s t) ∧
    (∀ policy args, RunSame LookAlike (Published.classSet policy args) s t) ∧
    ∀ policy args, s.objects.KeepsPrivate ((Published.classSet policy args).runOn s).2.objects := by
  have heaps : s.objects.LookAlike t.objects := by
    obtain ⟨objects, looks, rfl⟩ := alike
    exact looks
  refine ⟨fun v => ?_, fun v => ⟨?_, ?_⟩, fun o name => ?_, fun o => ?_, fun args => ?_,
    fun policy args => ?_, fun policy args => ?_⟩
  · exact (Crossing.toScript_discreet v).same alike
  · exact heaps.text_eq v
  · exact heaps.debugText_eq v
  · exact (HostM.field_discreet o name).same heaps
  · exact (HostM.publicFields_discreet o).same heaps
  · exact (Published.classGet_discreet args).same alike
  · exact (Published.classSet_discreet policy args).same alike
  · exact Published.classSet_withholds policy args s

/-- A machine with a crate that holds a resource of a given revision, and has a private note. -/
def stocked (revision : UInt64) (note : String) : Machine where
  objects.instances := #[{
    shape := ⟨"Crate", "store",
      [.visible "content" .struct (.record Resource.shape), .hidden "note" .text]⟩
    fields := [.record Resource.shape (Resource.layout.fields { name := "web", revision }),
      .text note] }]

theorem stocked_lookAlike (revision other : UInt64) (note text : String) :
    (stocked revision note).LookAlike (stocked other text) := by
  have content : Datum.FieldsLookAlike Resource.shape.fields
      (Resource.layout.fields { name := "web", revision })
      (Resource.layout.fields { name := "web", revision := other }) :=
    .shown rfl (.refl _) <| .shown rfl (.refl _) <| .shown rfl (.refl _) <| .shown rfl (.refl _) <|
      .shown rfl (.refl _) <| .shown rfl (.refl _) <| .shown rfl (.refl _) <| .kept rfl _ _ .nil
  refine ⟨(stocked other text).objects, ⟨rfl, fun o => ?_⟩, rfl⟩
  obtain ⟨_ | index⟩ := o
  · exact ⟨rfl, rfl, .shown rfl (.record content) (.kept rfl _ _ .nil)⟩
  · exact .refl _

/-- Two crates with different notes and resources of different revisions are shown the same. -/
theorem private_fields_withheld_crates :
    (stocked 0 "new").LookAlike (stocked 7 "used") ∧
      (stocked 0 "new").objects.get ⟨0⟩ ≠ (stocked 7 "used").objects.get ⟨0⟩ ∧
      (stocked 7 "used").objects.text (.struct ⟨0⟩) = (stocked 0 "new").objects.text (.struct ⟨0⟩) ∧
      RunSame LookAlike (Crossing.toScript (.struct ⟨0⟩)) (stocked 0 "new") (stocked 7 "used") := by
  have alike := stocked_lookAlike 0 7 "new" "used"
  obtain ⟨scripts, texts, -⟩ := private_fields_withheld alike
  refine ⟨alike, fun same => ?_, (texts _).1, scripts _⟩
  have notes : Datum.text "new" = .text "used" :=
    Option.some.inj (congrArg (fun i => i.fields[1]?) same)
  have apart : "new" ≠ "used" := by decide
  exact apart (Datum.text.inj notes)

end Machine

end ScriptHost
