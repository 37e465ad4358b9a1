import ScriptHost.Proofs.Conversion
import ScriptHost.Proofs.Decoding
import ScriptHost.Proofs.HostRuns

/-!
# Assignments to the fields of objects

A script assigns a table to an object.  What each field takes of it depends on the field and on the
value under its name only: an assignment has no effect but on the stored values of its object, and
these do not depend on the order in which the table is traversed.  The proof follows the traversal
one pair after the other; as keys do not repeat, each field meets at most one pair.
-/

namespace ScriptHost

/-! ## What is stored of a scalar -/

/-- A value that a field may take. -/
def HostValue.isScalar : HostValue → Bool
  | .bool _ | .int _ | .float _ | .str _ => true
  | _ => false

namespace Storage

open HostM

/-- The stored form of a scalar, if there is one. -/
def kept? (storage : Storage) (v : HostValue) : Option Datum :=
  ((storage.store v).runOn {}).1.toOption

/-- How a scalar is stored does not depend on the heap, and leaves it alone. -/
theorem runOn_store_scalar : ∀ (storage : Storage) {v : HostValue}, v.isScalar = true →
    ∀ objects : Objects,
      (storage.store v).runOn objects = (((storage.store v).runOn {}).1, objects)
  | .option content, v, scalar, objects => by
    have same : (Storage.option content).store v = (do return .present (← content.store v)) := by
      cases v <;> first | rfl | cases scalar
    rw [same, runOn_bind, runOn_bind, runOn_store_scalar content scalar objects]
    rcases (content.store v).runOn {} with ⟨_ | _, _⟩ <;> rfl
  | .int32, v, scalar, objects => by
    cases v with
    | int i =>
      simp only [store]
      split <;> rfl
    | _ => rfl
  | .size, v, scalar, objects => by
    cases v with
    | int i =>
      simp only [store]
      split <;> rfl
    | _ => rfl
  | .bool, v, scalar, objects | .int64, v, scalar, objects | .float, v, scalar, objects
  | .single, v, scalar, objects | .text, v, scalar, objects | .object, v, scalar, objects
  | .any, v, scalar, objects | .record _, v, scalar, objects | .list _, v, scalar, objects
  | .map _, v, scalar, objects => by
    cases v <;> first | rfl | cases scalar

end Storage

/-! ## The fields of an object -/

/-- A type of objects whose fields have names of their own, which no other bytes are read as. -/
structure Shape.Declared (shape : Shape) : Prop where
  distinct : (shape.fields.map (·.name)).Nodup
  plain : ∀ f ∈ shape.fields, Utf8.replacement ∉ f.name.toList

namespace Field

/-- The stored value of a field that took a host value, or took none. -/
def taking (f : Field) (d : Datum) (taken : Option HostValue) : Datum :=
  (taken.bind f.storage.kept?).getD d

@[simp]
theorem taking_none (f : Field) (d : Datum) : f.taking d none = d := rfl

end Field

/-- Stored values after each field took what it takes. -/
def updated (fields : List Field) (data : List Datum) (taken : Field → Option HostValue) :
    List Datum :=
  List.zipWith (fun f d => f.taking d (taken f)) fields data

section Updates

variable {fields : List Field} {data : List Datum} {taken other : Field → Option HostValue}

@[simp]
theorem length_updated : (updated fields data taken).length = min fields.length data.length :=
  List.length_zipWith

theorem updated_congr (same : ∀ f ∈ fields, taken f = other f) :
    updated fields data taken = updated fields data other := by
  induction fields generalizing data with
  | nil => rfl
  | cons f rest ih =>
    cases data with
    | nil => rfl
    | cons d data =>
      rw [updated, List.zipWith_cons_cons, same f List.mem_cons_self]
      exact congrArg _ (ih fun f inside => same f (List.mem_cons_of_mem _ inside))

/-- Where no field takes anything all stays as it is. -/
theorem updated_none (full : data.length = fields.length) (none : ∀ f ∈ fields, taken f = none) :
    updated fields data taken = data := by
  induction fields generalizing data with
  | nil =>
    rw [List.length_nil, List.length_eq_zero_iff] at full
    rw [full]
    rfl
  | cons f rest ih =>
    cases data with
    | nil => rfl
    | cons d data =>
      rw [updated, List.zipWith_cons_cons, none f List.mem_cons_self, Field.taking_none]
      exact congrArg _ (ih (by simpa using full)
        fun f inside => none f (List.mem_cons_of_mem _ inside))

/-- The field of a name is the only one that takes something. -/
theorem setStored_eq_updated {name : String} {datum : Datum} {field : Field} {v : HostValue}
    (distinct : (fields.map (·.name)).Nodup) (full : data.length = fields.length)
    (among : field ∈ fields) (named : field.name = name)
    (stored : field.storage.kept? v = some datum) :
    Instance.setStored name datum fields data =
      updated fields data fun f => if f.name = name then some v else none := by
  induction fields generalizing data with
  | nil => cases among
  | cons f rest ih =>
    obtain ⟨new, others⟩ := List.nodup_cons.1 distinct
    cases data with
    | nil => rfl
    | cons d data =>
      have fullRest : data.length = rest.length := by simpa using full
      rw [Instance.setStored, updated, List.zipWith_cons_cons]
      by_cases here : f.name = name
      · have apart : ∀ g ∈ rest, g.name ≠ name := fun g inside also =>
          new (List.mem_map.2 ⟨g, inside, also.trans here.symm⟩)
        have same : field = f := by
          rcases List.mem_cons.1 among with same | later
          · exact same
          · exact absurd named (apart field later)
        have still : updated rest data (fun g => if g.name = name then some v else none) = data :=
          updated_none fullRest fun g inside => if_neg (apart g inside)
        rw [if_pos here, if_pos here, Field.taking, Option.bind_some, ← same, stored,
          Option.getD_some]
        exact congrArg _ still.symm
      · have later : field ∈ rest := by
          rcases List.mem_cons.1 among with same | later
          · exact absurd (same ▸ named) here
          · exact later
        rw [if_neg here, if_neg here, Field.taking_none]
        exact congrArg _ (ih others fullRest later)

theorem zipWith_zipWith_same {α β : Type} (f g : α → β → β) (as : List α) (bs : List β) :
    List.zipWith f as (List.zipWith g as bs) = List.zipWith (fun a b => f a (g a b)) as bs := by
  induction as generalizing bs with
  | nil => rfl
  | cons a as ih =>
    cases bs with
    | nil => rfl
    | cons b bs => exact congrArg _ (ih bs)

/-- What fields take one after the other can be told for each field by itself. -/
theorem foldl_updated {α : Type} (takes : α → Field → Option HostValue) (pairs : List α)
    (full : data.length = fields.length) :
    pairs.foldl (fun data pair => updated fields data (takes pair)) data =
      List.zipWith (fun f d => pairs.foldl (fun d pair => f.taking d (takes pair f)) d)
        fields data := by
  induction pairs generalizing data with
  | nil => exact (updated_none full fun _ _ => rfl).symm
  | cons pair rest ih =>
    have still : (updated fields data (takes pair)).length = fields.length := by
      rw [length_updated, full, Nat.min_self]
    rw [List.foldl_cons, ih still, updated, zipWith_zipWith_same]
    rfl

end Updates

/-! ## What a field takes of a script value -/

namespace Machine

/-- What a script value other than a plain table is for the host; plain tables fit no field. -/
def offered (s : Machine) : Value → Option HostValue
  | .nil => none
  | .bool b => some (.bool b)
  | .int i => some (.int i)
  | .float x => some (match x.toInt64? with | some i => .int i | none => .float x)
  | .str bytes => some (.str (Utf8.decode bytes))
  | .table id => s.unwrap? id
  | v => some (.str (v.hostType ++ ": " ++ v.addressText))

/-- What a field takes of a value under its name. -/
def acceptedOf (s : Machine) (f : Field) (v : Value) : Option HostValue :=
  if f.isPublic then (s.offered v).bind (Crossing.fitted? f.kind) else none

/-- What a field takes of a table: what is under its own name, if that fits. -/
def accepted (s : Machine) (t : Table) (f : Field) : Option HostValue :=
  s.acceptedOf f (t.get (.text f.name))

/-- What a field takes of one pair. -/
def acceptedFrom (s : Machine) (pair : Value × Value) (f : Field) : Option HostValue :=
  if pair.1.asKey = .text f.name then s.acceptedOf f pair.2 else none

variable {s t : Machine} {v w : Value} {h : HostValue} {f : Field}

theorem acceptedFrom_str (s : Machine) (bytes : ByteArray) (v : Value) (f : Field) :
    s.acceptedFrom (.str bytes, v) f =
      if Value.str bytes = .text f.name then s.acceptedOf f v else none := rfl

/-- What a value unfolds to fits a field exactly if what it offers does. -/
theorem Unfolds.fitted? (unfolds : s.Unfolds v h) (kind : FieldKind) :
    Crossing.fitted? kind h = (s.offered v).bind (Crossing.fitted? kind) := by
  cases unfolds with
  | nil => cases kind <;> rfl
  | bool b => rfl
  | int i => rfl
  | integral equal => rw [offered, equal, Option.bind_some]
  | float fractional => rw [offered, fractional, Option.bind_some]
  | str bytes => rfl
  | bare isBare => cases v <;> first | rfl | cases isBare
  | proxy stands => rw [offered, stands, Option.bind_some]
  | list plain pairs ascending each =>
    rw [offered, plain]
    cases kind <;> rfl
  | map plain mixed each =>
    rw [offered, plain]
    cases kind <;> rfl

theorem fitted?_isScalar {kind : FieldKind} {taken : HostValue}
    (fits : Crossing.fitted? kind h = some taken) : taken.isScalar = true := by
  cases kind <;> cases h <;> cases fits <;> rfl

theorem Alike.offered (like : Alike v w) : s.offered w = s.offered v := by
  cases like <;> rfl

theorem Alike.asKey_eq_text {k l : Value} {name : String} (like : Alike k l) :
    l.asKey = .text name ↔ k.asKey = .text name := by
  cases like with
  | same => rfl
  | faults => exact iff_of_false nofun nofun

theorem acceptedFrom_alike (s : Machine) (pair : Value × Value) {other : Value × Value}
    (like : Alike pair.1 other.1 ∧ Alike pair.2 other.2) :
    s.acceptedFrom other = s.acceptedFrom pair := by
  funext f
  simp only [acceptedFrom, like.1.asKey_eq_text, acceptedOf, like.2.offered]

theorem acceptedOf_nil (s : Machine) (f : Field) : s.acceptedOf f .nil = none := by
  rw [acceptedOf]
  split <;> rfl

/-- Pairs without the name of a field bring it nothing. -/
theorem foldl_taking_absent {pairs : List (Value × Value)} (d : Datum)
    (absent : ∀ pair ∈ pairs, pair.1.asKey ≠ .text f.name) :
    pairs.foldl (fun d pair => f.taking d (s.acceptedFrom pair f)) d = d := by
  induction pairs with
  | nil => rfl
  | cons pair rest ih =>
    rw [List.foldl_cons, acceptedFrom, if_neg (absent pair List.mem_cons_self), Field.taking_none]
    exact ih fun later inside => absent later (List.mem_cons_of_mem _ inside)

/-- A traversal in which no key comes again brings a field what it takes of the table. -/
theorem foldl_taking {pairs : List (Value × Value)} (d : Datum)
    (distinct : (pairs.map fun pair => pair.1.asKey).Nodup) :
    pairs.foldl (fun d pair => f.taking d (s.acceptedFrom pair f)) d =
      f.taking d (s.acceptedOf f (Table.assigned pairs (.text f.name) .nil)) := by
  induction pairs with
  | nil => rw [List.foldl_nil, Table.assigned, List.foldl_nil, acceptedOf_nil, Field.taking_none]
  | cons pair rest ih =>
    obtain ⟨new, others⟩ := List.nodup_cons.1 distinct
    have key : (Value.text f.name).asKey = .text f.name := rfl
    rw [List.foldl_cons, Table.assigned, List.foldl_cons]
    by_cases here : pair.1.asKey = .text f.name
    · have absent : ∀ later ∈ rest, later.1.asKey ≠ .text f.name := fun later inside also =>
        new (List.mem_map.2 ⟨later, inside, also.trans here.symm⟩)
      have last : Table.assigned rest (.text f.name) pair.2 = pair.2 :=
        Table.assigned_of_not_mem _ fun later inside same => absent later inside same.symm
      rw [foldl_taking_absent _ absent, if_pos (key.trans here.symm), acceptedFrom, if_pos here]
      exact congrArg (fun v => f.taking d (s.acceptedOf f v)) last.symm
    · rw [acceptedFrom, if_neg here, Field.taking_none, ih others,
        if_neg fun same => here (same.symm.trans key)]
      rfl

end Machine

/-! ## One object takes a table -/

/-- An object with one stored value for each field of its declared type. -/
structure Instance.Declared (i : Instance) : Prop where
  shape : i.shape.Declared
  full : i.fields.length = i.shape.fields.length

theorem find?_name {fields : List Field} {f : Field}
    (distinct : (fields.map (·.name)).Nodup) (among : f ∈ fields) :
    fields.find? (·.name = f.name) = some f := by
  induction fields with
  | nil => cases among
  | cons first rest ih =>
    obtain ⟨new, others⟩ := List.nodup_cons.1 distinct
    rcases List.mem_cons.1 among with rfl | later
    · exact List.find?_cons_of_pos (decide_eq_true rfl)
    · have apart : first.name ≠ f.name := fun same => new (List.mem_map.2 ⟨f, later, same.symm⟩)
      rw [List.find?_cons_of_neg (by simpa using apart)]
      exact ih others later

namespace Shape.Declared

variable {shape : Shape} {f : Field} {name : String} {bytes : ByteArray}

theorem publicField?_of_mem (declared : shape.Declared) (among : f ∈ shape.fields)
    (isPublic : f.isPublic = true) : shape.publicField? f.name = some f := by
  rw [publicField?, field?, find?_name declared.distinct among]
  exact Option.filter_some_pos isPublic

theorem mem_of_publicField? (found : shape.publicField? name = some f) :
    f ∈ shape.fields ∧ f.name = name ∧ f.isPublic = true := by
  obtain ⟨first, isPublic⟩ := Option.filter_eq_some_iff.1 found
  exact ⟨List.mem_of_find?_eq_some first, by simpa using List.find?_some first, isPublic⟩

/-- Bytes are the name of a field exactly if they are read as it. -/
theorem text_eq_iff (declared : shape.Declared) (among : f ∈ shape.fields) :
    Value.str bytes = .text f.name ↔ f.name = Utf8.decode bytes := by
  constructor
  · intro same
    obtain rfl : bytes = f.name.toByteArray := Value.str.inj same
    exact (Utf8.decode_toByteArray f.name).symm
  · intro same
    rw [Value.text, Utf8.eq_toByteArray_of_decode (declared.plain f among) same.symm]

theorem eq_of_name (declared : shape.Declared) {g : Field} (among : f ∈ shape.fields)
    (also : g ∈ shape.fields) (same : f.name = g.name) : f = g := by
  have first := find?_name declared.distinct among
  rw [same, find?_name declared.distinct also] at first
  exact (Option.some.inj first).symm

end Shape.Declared

namespace HostM

/-- A scalar that is stored in a public field is all that happens to the heap. -/
theorem runOn_setField_ok {o : ObjectId} {name : String} {v : HostValue}
    {objects after : Objects} (scalar : v.isScalar = true)
    (run : (setField o name v).runOn objects = (.ok (), after)) :
    ∃ field datum, (objects.get o).shape.publicField? name = some field ∧
      field.storage.kept? v = some datum ∧
      after = objects.put o (Instance.setStored name datum (objects.get o).shape.fields
        (objects.get o).fields) := by
  by_cases free : (objects.get o).hold = .free
  · rw [setField, runOn_bind_ok (runOn_writable free)] at run
    cases declared : (objects.get o).shape.publicField? name with
    | none =>
      rw [declared] at run
      cases run
    | some field =>
      rw [declared] at run
      dsimp only at run
      rw [runOn_bind, runOn_holding, field.storage.runOn_store_scalar scalar] at run
      cases stored : ((field.storage.store v).runOn {}).1 with
      | error stop =>
        rw [stored] at run
        cases run
      | ok datum =>
        rw [stored, Objects.setHold_setHold] at run
        dsimp only at run
        rw [runOn_setFields] at run
        cases run
        refine ⟨field, datum, rfl, ?_, rfl⟩
        rw [Storage.kept?, stored]
        rfl
  · have refused : (writable o).runOn objects =
        (.error (.error (.busy (objects.get o).shape.name)), objects) := by
      rw [writable, runOn_bind_ok (runOn_instanceOf o objects), if_neg free, runOn_fail]
    rw [setField, runOn_bind_stop refused] at run
    cases run

end HostM

namespace Crossing

open Machine MachineM

variable {s t u : Machine} {o : ObjectId} {policy : AssignPolicy}

/-- A pair that no field takes anything from. -/
theorem updated_of_silent {pair : Value × Value} (declared : (t.objects.get o).Declared)
    (silent : ∀ f ∈ (t.objects.get o).shape.fields, t.acceptedFrom pair f = none) :
    t.objects.put o (updated (t.objects.get o).shape.fields (t.objects.get o).fields
      (t.acceptedFrom pair)) = t.objects := by
  rw [updated_none declared.full silent, Objects.put_fields]

/-- What the host makes of a value is what the value unfolds to. -/
theorem toHost_ok {v : Value} {h : HostValue} (run : (toHost v).runOn t = (.ok h, u)) :
    t.Unfolds v h ∧ t.Later u := by
  obtain ⟨found, w, converted, later, unfolds, -⟩ | ⟨stop, w, stopped, -⟩ :=
    hostValue_converts t depthLimit [] v t (.refl t)
  · rw [toHost, converted] at run
    cases run
    exact ⟨unfolds, later⟩
  · rw [toHost, stopped] at run
    cases run

theorem runOn_assignEntry_ok {k v : Value} (declared : (t.objects.get o).Declared)
    (run : (assignEntry o policy k v).runOn t = (.ok (), u)) :
    ∃ faults, u = { t with
      objects := t.objects.put o (updated (t.objects.get o).shape.fields (t.objects.get o).fields
        (t.acceptedFrom (k, v)))
      faults } := by
  by_cases textual : ∃ bytes, k = .str bytes
  · obtain ⟨bytes, rfl⟩ := textual
    rw [assignEntry, runOn_bind_ok (runOn_get t)] at run
    cases found : (t.objects.get o).shape.publicField? (Utf8.decode bytes) with
    | none =>
      rw [found] at run
      cases run
      refine ⟨t.faults, ?_⟩
      rw [updated_of_silent declared fun f among => ?_]
      by_cases named : Value.str bytes = .text f.name
      · cases isPublic : f.isPublic with
        | false =>
          rw [acceptedFrom, acceptedOf, isPublic]
          exact ite_self _
        | true =>
          have here := declared.shape.publicField?_of_mem among isPublic
          rw [(declared.shape.text_eq_iff among).1 named, found] at here
          cases here
      · exact if_neg named
    | some field =>
      obtain ⟨among, named, isPublic⟩ := Shape.Declared.mem_of_publicField? found
      rw [found] at run
      dsimp only at run
      -- what the one field of that name takes is what all of them take
      have taken (f : Field) (inside : f ∈ (t.objects.get o).shape.fields) :
          t.acceptedFrom (.str bytes, v) f =
            if f.name = Utf8.decode bytes then (t.offered v).bind (fitted? field.kind)
            else none := by
        by_cases here : f.name = Utf8.decode bytes
        · have same : f = field :=
            declared.shape.eq_of_name inside among (here.trans named.symm)
          rw [acceptedFrom_str, if_pos here, if_pos ((declared.shape.text_eq_iff inside).2 here),
            acceptedOf, same, if_pos isPublic]
        · rw [acceptedFrom_str, if_neg here,
            if_neg fun same => here ((declared.shape.text_eq_iff inside).1 same)]
      by_cases assignable : field.kind.isAssignable = true
      · rw [if_neg (by simp [assignable])] at run
        obtain ⟨h, w, converted, run⟩ := runOn_bind_eq_ok.1 run
        obtain ⟨unfolds, later⟩ := toHost_ok converted
        rw [← unfolds.fitted?] at taken
        cases fits : fitted? field.kind h with
        | some scalar =>
          rw [fits] at run taken
          dsimp only at run
          obtain ⟨objects, set, rfl⟩ := runOn_onObjects_ok.1 run
          rw [later.objects] at set
          obtain ⟨same, datum, found', stored, rfl⟩ :=
            HostM.runOn_setField_ok (fitted?_isScalar fits) set
          obtain rfl : field = same := Option.some.inj (found.symm.trans found')
          rw [setStored_eq_updated declared.shape.distinct declared.full among named stored,
            updated_congr fun f inside => (taken f inside).symm]
          obtain ⟨n, rfl⟩ := later
          exact ⟨_, rfl⟩
        | none =>
          rw [fits] at run taken
          have still : w = u := by
            cases policy with
            | lenient =>
              cases run
              rfl
            | strict => cases run
          have silent (f : Field) (inside : f ∈ (t.objects.get o).shape.fields) :
              t.acceptedFrom (.str bytes, v) f = none := (taken f inside).trans (ite_self _)
          rw [updated_of_silent declared silent, ← still]
          obtain ⟨n, rfl⟩ := later
          exact ⟨_, rfl⟩
      · rw [if_pos (by simpa using assignable)] at run
        cases run
  · have ignored : assignEntry o policy k v = pure () := by
      cases k <;> first | rfl | exact absurd ⟨_, rfl⟩ textual
    rw [ignored] at run
    cases run
    refine ⟨t.faults, ?_⟩
    rw [updated_of_silent declared fun f _ => if_neg fun same => ?_]
    cases k with
    | str bytes => exact textual ⟨bytes, rfl⟩
    | float x =>
      cases integral : x.toInt64? <;> simp [Value.asKey, Value.text, integral] at same
    | _ => cases same

theorem receiveEntry_ok {pair taken : Value × Value}
    (run : (receiveEntry pair).runOn t = (.ok taken, u)) :
    t.Later u ∧ Alike pair.1 taken.1 ∧ Alike pair.2 taken.2 := by
  rw [receiveEntry] at run
  obtain ⟨k, w, tookKey, run⟩ := runOn_bind_eq_ok.1 run
  obtain ⟨v, x, tookValue, run⟩ := runOn_bind_eq_ok.1 run
  cases run
  obtain ⟨key, after, first, later, likeKey⟩ | ⟨text, after, -, first⟩ :=
    runOn_receive (.refl t) pair.1
  swap
  · rw [first] at tookKey
    cases tookKey
  rw [first] at tookKey
  cases tookKey
  obtain ⟨value, after, second, later, likeValue⟩ | ⟨text, after, -, second⟩ :=
    runOn_receive later pair.2
  swap
  · rw [second] at tookValue
    cases tookValue
  rw [second] at tookValue
  cases tookValue
  exact ⟨later, likeKey, likeValue⟩

/-- As many values as there are fields stand where they are put, also beyond the heap. -/
theorem get_put_full {objects : Objects} {data : List Datum}
    (full : data.length = (objects.get o).shape.fields.length) :
    (objects.put o data).get o = { objects.get o with fields := data } := by
  by_cases inside : o.index < objects.size
  · exact Objects.get_put_self data inside
  · have beyond := Nat.le_of_not_lt inside
    rw [Objects.get_of_le beyond] at full ⊢
    rw [List.length_eq_zero_iff.1 full,
      Objects.get_of_le (Nat.le_trans (Nat.le_of_eq (Objects.size_put ..)) beyond)]
    rfl

/-- Pairs that an object takes one after the other. -/
theorem runOn_assignEntries_ok
    (declared : (s.objects.get o).shape.Declared) (pairs : List (Value × Value)) :
    ∀ (data : List Datum) (faults : Array Fault),
      data.length = (s.objects.get o).shape.fields.length →
      (pairs.forM fun entry => do
          let (k, v) ← receiveEntry entry
          assignEntry o policy k v).runOn
        { s with objects := s.objects.put o data, faults } = (.ok (), u) →
      ∃ faults, u = { s with
        objects := s.objects.put o (pairs.foldl
          (fun data pair => updated (s.objects.get o).shape.fields data (s.acceptedFrom pair)) data)
        faults } := by
  induction pairs with
  | nil =>
    intro data faults _ run
    cases run
    exact ⟨faults, rfl⟩
  | cons pair rest ih =>
    intro data faults full run
    rw [List.forM] at run
    obtain ⟨_, w, one, others⟩ := runOn_bind_eq_ok.1 run
    obtain ⟨taken, x, received, assigned⟩ := runOn_bind_eq_ok.1 one
    obtain ⟨⟨n, rfl⟩, like⟩ := receiveEntry_ok received
    have there := get_put_full full
    obtain ⟨after, rfl⟩ := runOn_assignEntry_ok (by
      dsimp only
      rw [there]
      exact ⟨declared, full⟩) assigned
    dsimp only at others
    rw [there, Objects.put_put] at others
    rw [acceptedFrom_alike _ pair like] at others
    refine ih _ _ ?_ others
    rw [length_updated, full, Nat.min_self]

/--
An object that takes a table: each field takes what is under its own name, if that fits, and nothing
else happens to objects.  The policy decides only whether the assignment ends well.
-/
theorem runOn_assign_ok {id : TableId} (declared : (s.objects.get o).Declared)
    (run : (assign o id policy).runOn s = (.ok (), u)) :
    ∃ faults, u = { s with
      objects := s.objects.put o (updated (s.objects.get o).shape.fields (s.objects.get o).fields
        (s.accepted (s.tables[id.index]?.getD default)))
      faults } := by
  rw [assign, runOn_bind_ok (runOn_table id s)] at run
  have start : { s with objects := s.objects.put o (s.objects.get o).fields } = s := by
    rw [Objects.put_fields]
  obtain ⟨faults, rfl⟩ := runOn_assignEntries_ok declared.shape _ (s.objects.get o).fields
    s.faults declared.full (start.symm ▸ run)
  refine ⟨faults, ?_⟩
  have together :=
    foldl_updated s.acceptedFrom (s.tables[id.index]?.getD default).live declared.full
  simp only [foldl_taking _ (Table.live_final_keys_nodup _), Table.assigned_live] at together
  rw [together]
  rfl

end Crossing

end ScriptHost
