import ScriptHost.Proofs.AssignmentOrders

/-!
# Heaps that differ in private fields

Two heaps look alike if they have the same objects but for what is stored in private fields, also in
those of records inside other fields.  The host does not tell such heaps apart where it reads and
writes for scripts: a computation that is discreet ends in the same way on both, and leaves heaps
that look alike.
-/

namespace ScriptHost

mutual

/-- Two stored values that differ in private fields of records at most. -/
inductive Datum.LookAlike : Datum → Datum → Prop where
  | bool (b : Bool) : LookAlike (.bool b) (.bool b)
  | int (i : Int64) : LookAlike (.int i) (.int i)
  | size (n : UInt64) : LookAlike (.size n) (.size n)
  | float (x : Binary64) : LookAlike (.float x) (.float x)
  | text (s : String) : LookAlike (.text s) (.text s)
  | object (o : ObjectId) : LookAlike (.object o) (.object o)
  | any (v : HostValue) : LookAlike (.any v) (.any v)
  | record {shape : Shape} {data others : List Datum}
      (fields : FieldsLookAlike shape.fields data others) :
      LookAlike (.record shape data) (.record shape others)
  | absent : LookAlike .absent .absent
  | present {d other : Datum} (content : LookAlike d other) :
      LookAlike (.present d) (.present other)
  | list {items others : List Datum} (each : ItemsLookAlike items others) :
      LookAlike (.list items) (.list others)
  | map {entries others : List (String × Datum)} (each : EntriesLookAlike entries others) :
      LookAlike (.map entries) (.map others)

inductive Datum.ItemsLookAlike : List Datum → List Datum → Prop where
  | nil : ItemsLookAlike [] []
  | cons {d other : Datum} {items others : List Datum} (first : LookAlike d other)
      (rest : ItemsLookAlike items others) : ItemsLookAlike (d :: items) (other :: others)

inductive Datum.EntriesLookAlike : List (String × Datum) → List (String × Datum) → Prop where
  | nil : EntriesLookAlike [] []
  | cons {key : String} {d other : Datum} {entries others : List (String × Datum)}
      (first : LookAlike d other) (rest : EntriesLookAlike entries others) :
      EntriesLookAlike ((key, d) :: entries) ((key, other) :: others)

/-- The stored values of two objects of one type: what is in private fields may be anything. -/
inductive Datum.FieldsLookAlike : List Field → List Datum → List Datum → Prop where
  | nil {declared : List Field} : FieldsLookAlike declared [] []
  | beyond (data : List Datum) : FieldsLookAlike [] data data
  | shown {field : Field} {declared : List Field} {d other : Datum} {data others : List Datum}
      (isPublic : field.isPublic = true) (first : LookAlike d other)
      (rest : FieldsLookAlike declared data others) :
      FieldsLookAlike (field :: declared) (d :: data) (other :: others)
  | kept {field : Field} {declared : List Field} {data others : List Datum}
      (isPrivate : field.isPublic = false) (d other : Datum)
      (rest : FieldsLookAlike declared data others) :
      FieldsLookAlike (field :: declared) (d :: data) (other :: others)

end

namespace Datum

mutual

/-- A stored value looks like itself. -/
theorem LookAlike.refl : ∀ d : Datum, LookAlike d d
  | .bool b => .bool b
  | .int i => .int i
  | .size n => .size n
  | .float x => .float x
  | .text s => .text s
  | .object o => .object o
  | .any v => .any v
  | .record shape data => .record (FieldsLookAlike.refl shape.fields data)
  | .absent => .absent
  | .present d => .present (LookAlike.refl d)
  | .list items => .list (ItemsLookAlike.refl items)
  | .map entries => .map (EntriesLookAlike.refl entries)

theorem ItemsLookAlike.refl : ∀ items : List Datum, ItemsLookAlike items items
  | [] => .nil
  | d :: rest => .cons (LookAlike.refl d) (ItemsLookAlike.refl rest)

theorem EntriesLookAlike.refl : ∀ entries : List (String × Datum), EntriesLookAlike entries entries
  | [] => .nil
  | (_, d) :: rest => .cons (LookAlike.refl d) (EntriesLookAlike.refl rest)

theorem FieldsLookAlike.refl : ∀ (declared : List Field) (data : List Datum),
    FieldsLookAlike declared data data
  | _, [] => .nil
  | [], data => .beyond data
  | field :: declared, d :: rest => by
    cases isPublic : field.isPublic with
    | true => exact .shown isPublic (LookAlike.refl d) (FieldsLookAlike.refl declared rest)
    | false => exact .kept isPublic d d (FieldsLookAlike.refl declared rest)

end

/-! ## Texts -/

section Texts

variable (object : ObjectId → Option String)

mutual

/-- Stored values that look alike have the same text. -/
theorem LookAlike.text_eq : ∀ {d other : Datum}, LookAlike d other →
    Render.datum object d = Render.datum object other
  | _, _, .bool _ | _, _, .int _ | _, _, .size _ | _, _, .float _ | _, _, .text _ | _, _, .object _
  | _, _, .any _ | _, _, .absent => rfl
  | _, _, .record fields => by rw [Render.datum, Render.datum, FieldsLookAlike.texts_eq fields]
  | _, _, .present content => by rw [Render.datum, Render.datum, LookAlike.text_eq content]
  | _, _, .list each => by rw [Render.datum, Render.datum, ItemsLookAlike.texts_eq each]
  | _, _, .map each => by rw [Render.datum, Render.datum, EntriesLookAlike.texts_eq each]

theorem ItemsLookAlike.texts_eq : ∀ {items others : List Datum}, ItemsLookAlike items others →
    Render.data object items = Render.data object others
  | _, _, .nil => rfl
  | _, _, .cons first rest => by
    rw [Render.data, Render.data, LookAlike.text_eq first, ItemsLookAlike.texts_eq rest]

theorem EntriesLookAlike.texts_eq : ∀ {entries others : List (String × Datum)},
    EntriesLookAlike entries others → Render.entries object entries = Render.entries object others
  | _, _, .nil => rfl
  | _, _, .cons first rest => by
    rw [Render.entries, Render.entries, LookAlike.text_eq first, EntriesLookAlike.texts_eq rest]

theorem FieldsLookAlike.texts_eq : ∀ {declared : List Field} {data others : List Datum},
    FieldsLookAlike declared data others →
      Render.fields object declared data = Render.fields object declared others
  | _, _, _, .nil => rfl
  | _, _, _, .beyond _ => rfl
  | _, _, _, .shown isPublic first rest => by
    rw [Render.fields, Render.fields, if_pos isPublic, if_pos isPublic, LookAlike.text_eq first,
      FieldsLookAlike.texts_eq rest]
  | _, _, _, .kept isPrivate _ _ rest => by
    rw [Render.fields, Render.fields, isPrivate, FieldsLookAlike.texts_eq rest]
    rfl

end

end Texts

theorem ItemsLookAlike.length_eq {items others : List Datum} :
    ItemsLookAlike items others → others.length = items.length
  | .nil => rfl
  | .cons _ rest => congrArg (· + 1) rest.length_eq

end Datum

/-! ## Fields -/

namespace Datum

section Fields

variable {declared : List Field} {data others : List Datum}

/-- The rows of the public fields look alike. -/
theorem FieldsLookAlike.rows (alike : FieldsLookAlike declared data others) :
    EntriesLookAlike
      ((declared.zip data).filterMap fun (field, d) =>
        if field.isPublic then some (field.name, d) else none)
      ((declared.zip others).filterMap fun (field, d) =>
        if field.isPublic then some (field.name, d) else none) := by
  induction declared generalizing data others with
  | nil => exact .nil
  | cons field declared ih =>
    cases alike with
    | nil => exact .nil
    | shown isPublic first rest =>
      rw [List.zip_cons_cons, List.zip_cons_cons,
        List.filterMap_cons_some (by simp only [isPublic]; rfl),
        List.filterMap_cons_some (by simp only [isPublic]; rfl)]
      exact .cons first (ih rest)
    | kept isPrivate _ _ rest =>
      rw [List.zip_cons_cons, List.zip_cons_cons,
        List.filterMap_cons_none (by simp [isPrivate]),
        List.filterMap_cons_none (by simp [isPrivate])]
      exact ih rest

/-- What is stored in the first field of a name looks alike if that field is public. -/
theorem FieldsLookAlike.find {name : String} {found : Field} (isPublic : found.isPublic = true)
    (alike : FieldsLookAlike declared data others)
    (first : declared.find? (·.name = name) = some found) :
    (((declared.zip data).find? fun (field, _) => field.name = name) = none ∧
        ((declared.zip others).find? fun (field, _) => field.name = name) = none) ∨
      ∃ d other, (((declared.zip data).find? fun (field, _) => field.name = name) =
          some (found, d)) ∧
        (((declared.zip others).find? fun (field, _) => field.name = name) =
          some (found, other)) ∧ LookAlike d other := by
  induction declared generalizing data others with
  | nil => cases first
  | cons field declared ih =>
    by_cases here : field.name = name
    · rw [List.find?_cons_of_pos (by simpa using here)] at first
      cases first
      cases alike with
      | nil => exact .inl ⟨rfl, rfl⟩
      | @shown _ _ d other _ _ _ looks rest =>
        exact .inr ⟨d, other, List.find?_cons_of_pos (by simpa using here),
          List.find?_cons_of_pos (by simpa using here), looks⟩
      | kept isPrivate =>
        rw [isPrivate] at isPublic
        cases isPublic
    · rw [List.find?_cons_of_neg (by simpa using here)] at first
      cases alike with
      | nil => exact .inl ⟨rfl, rfl⟩
      | shown _ _ rest =>
        rw [List.zip_cons_cons, List.zip_cons_cons, List.find?_cons_of_neg (by simpa using here),
          List.find?_cons_of_neg (by simpa using here)]
        exact ih rest first
      | kept _ _ _ rest =>
        rw [List.zip_cons_cons, List.zip_cons_cons, List.find?_cons_of_neg (by simpa using here),
          List.find?_cons_of_neg (by simpa using here)]
        exact ih rest first

/-- The first field of a name takes the same in both. -/
theorem FieldsLookAlike.setStored (name : String) (new : Datum)
    (alike : FieldsLookAlike declared data others) :
    FieldsLookAlike declared (Instance.setStored name new declared data)
      (Instance.setStored name new declared others) := by
  induction declared generalizing data others with
  | nil =>
    cases alike with
    | nil => exact .nil
    | beyond => exact .beyond _
  | cons field declared ih =>
    cases alike with
    | nil => exact .nil
    | shown isPublic first rest =>
      rw [Instance.setStored, Instance.setStored]
      by_cases here : field.name = name
      · rw [if_pos here, if_pos here]
        exact .shown isPublic (LookAlike.refl new) rest
      · rw [if_neg here, if_neg here]
        exact .shown isPublic first (ih rest)
    | kept isPrivate d other rest =>
      rw [Instance.setStored, Instance.setStored]
      by_cases here : field.name = name
      · rw [if_pos here, if_pos here]
        exact .kept isPrivate new new rest
      · rw [if_neg here, if_neg here]
        exact .kept isPrivate d other (ih rest)

end Fields

end Datum

/-! ## Heaps -/

/-- Two objects of one type that differ in private fields at most. -/
structure Instance.LookAlike (i other : Instance) : Prop where
  shape : other.shape = i.shape
  hold : other.hold = i.hold
  fields : Datum.FieldsLookAlike i.shape.fields i.fields other.fields

/-- Two heaps of the same objects that differ in private fields at most. -/
structure Objects.LookAlike (a b : Objects) : Prop where
  size : b.size = a.size
  each : ∀ o : ObjectId, (a.get o).LookAlike (b.get o)

/-- Objects that are made of the fields of records. -/
theorem Instance.LookAlike.record {shape : Shape} {data others : List Datum}
    (fields : Datum.FieldsLookAlike shape.fields data others) :
    Instance.LookAlike { shape, fields := data } { shape, fields := others } := ⟨rfl, rfl, fields⟩

theorem Instance.LookAlike.refl (i : Instance) : i.LookAlike i :=
  ⟨rfl, rfl, Datum.FieldsLookAlike.refl _ _⟩

namespace Objects.LookAlike

variable {a b : Objects} {o : ObjectId}

theorem refl (a : Objects) : a.LookAlike a := ⟨rfl, fun _ => .refl _⟩

theorem shape (alike : a.LookAlike b) (o : ObjectId) : (b.get o).shape = (a.get o).shape :=
  (alike.each o).shape

/-- Objects of one type are added to both heaps. -/
theorem add (alike : a.LookAlike b) {i other : Instance} (new : i.LookAlike other) :
    (b.add other).1 = (a.add i).1 ∧ (a.add i).2.LookAlike (b.add other).2 := by
  have size := alike.size
  rw [Objects.size, Objects.size] at size
  refine ⟨congrArg ObjectId.mk size, ?_, fun o => ?_⟩
  · rw [Objects.size_add, Objects.size_add, alike.size]
  · rcases Nat.lt_trichotomy o.index a.size with inside | last | beyond
    · rw [Objects.get_add_of_lt a i inside,
        Objects.get_add_of_lt b other (Nat.lt_of_lt_of_eq inside alike.size.symm)]
      exact alike.each o
    · obtain rfl : o = (a.add i).1 := by
        cases o
        cases last
        rfl
      have same : (a.add i).1 = (b.add other).1 := congrArg ObjectId.mk size.symm
      rw [Objects.get_add_self, same, Objects.get_add_self]
      exact new
    · have further : (a.add i).2.size ≤ o.index := Nat.le_trans (Nat.le_of_eq (size_add ..)) beyond
      have also : (b.add other).2.size ≤ o.index := by
        rw [size_add, alike.size]
        exact beyond
      rw [Objects.get_of_le further, Objects.get_of_le also]
      exact .refl _

/-- An object is replaced in both heaps. -/
theorem set (alike : a.LookAlike b) (o : ObjectId) {i other : Instance} (new : i.LookAlike other) :
    (a.set o i).LookAlike (b.set o other) := by
  refine ⟨by rw [size_set, size_set, alike.size], fun p => ?_⟩
  by_cases same : p = o
  · subst same
    by_cases inside : p.index < a.size
    · rw [Objects.get_set_self a i inside,
        Objects.get_set_self b other (Nat.lt_of_lt_of_eq inside alike.size.symm)]
      exact new
    · have beyond := Nat.le_of_not_lt inside
      have also : b.size ≤ p.index := Nat.le_trans (Nat.le_of_eq alike.size) beyond
      rw [set_of_le beyond, set_of_le also]
      exact alike.each p
  · rw [Objects.get_set_of_ne a i same, Objects.get_set_of_ne b other same]
    exact alike.each p

/-- An object has the same text on both heaps. -/
theorem object_eq (alike : a.LookAlike b) (depth : Nat) :
    Render.object b depth = Render.object a depth := by
  funext o
  induction depth generalizing o with
  | zero => rfl
  | succ depth ih =>
    rw [Render.object, Render.object, funext ih]
    by_cases inside : o.index < a.size
    · have also : o.index < b.size := Nat.lt_of_lt_of_eq inside alike.size.symm
      have here : a.instances[o.index]? = some (a.get o) := by
        rw [Objects.get, Array.getElem?_eq_getElem inside, Option.getD_some]
      have there : b.instances[o.index]? = some (b.get o) := by
        rw [Objects.get, Array.getElem?_eq_getElem also, Option.getD_some]
      obtain ⟨shape, hold, fields⟩ := alike.each o
      rw [here, there]
      dsimp only
      rw [shape, hold, fields.texts_eq]
    · have beyond := Nat.le_of_not_lt inside
      have also : b.size ≤ o.index := Nat.le_trans (Nat.le_of_eq alike.size) beyond
      rw [Array.getElem?_eq_none beyond, Array.getElem?_eq_none also]

theorem objectText_eq (alike : a.LookAlike b) : b.objectText = a.objectText := by
  funext o
  rw [Objects.objectText, Objects.objectText, alike.size, alike.object_eq]

/-- A value is displayed the same on both heaps. -/
theorem text_eq (alike : a.LookAlike b) (v : HostValue) : b.text v = a.text v := by
  rw [Objects.text, Objects.text, alike.objectText_eq]

/-- A value is shown to developers the same on both heaps. -/
theorem debugText_eq (alike : a.LookAlike b) (v : HostValue) : b.debugText v = a.debugText v := by
  unfold Objects.debugText
  rw [alike.objectText_eq]
  simp only [alike.text_eq]

end Objects.LookAlike

/-- The public fields of objects that look alike. -/
theorem Instance.LookAlike.publicFields {i other : Instance} (alike : i.LookAlike other) :
    Datum.EntriesLookAlike i.publicFields other.publicFields := by
  obtain ⟨shape, -, fields⟩ := alike
  rw [Instance.publicFields, Instance.publicFields, shape]
  exact fields.rows

/-! ## Reading and writing -/

namespace Datum

mutual

/-- Stored values that look alike are read as the same host value. -/
theorem LookAlike.read_eq : ∀ {d other : Datum}, LookAlike d other → ∀ {a b : Objects},
    a.LookAlike b → (other.read.run b).1 = (d.read.run a).1 ∧
      (d.read.run a).2.LookAlike (other.read.run b).2
  | _, _, .bool _, _, _, alike | _, _, .int _, _, _, alike | _, _, .size _, _, _, alike
  | _, _, .float _, _, _, alike | _, _, .text _, _, _, alike | _, _, .object _, _, _, alike
  | _, _, .any _, _, _, alike | _, _, .absent, _, _, alike => ⟨rfl, alike⟩
  | _, _, .record fields, _, _, alike => by
    obtain ⟨same, later⟩ := alike.add (.record fields)
    exact ⟨congrArg HostValue.struct same, later⟩
  | _, _, .present content, _, _, alike => LookAlike.read_eq content alike
  | _, _, .list each, _, _, alike => by
    obtain ⟨same, later⟩ := ItemsLookAlike.read_eq each alike
    exact ⟨congrArg HostValue.list same, later⟩
  | _, _, .map each, _, _, alike => by
    obtain ⟨same, later⟩ := EntriesLookAlike.read_eq each alike
    exact ⟨congrArg HostValue.map same, later⟩

theorem ItemsLookAlike.read_eq : ∀ {items others : List Datum}, ItemsLookAlike items others →
    ∀ {a b : Objects}, a.LookAlike b →
      ((readAll others).run b).1 = ((readAll items).run a).1 ∧
        ((readAll items).run a).2.LookAlike ((readAll others).run b).2
  | _, _, .nil, _, _, alike => ⟨rfl, alike⟩
  | _, _, .cons first rest, _, _, alike => by
    obtain ⟨same, between⟩ := LookAlike.read_eq first alike
    obtain ⟨others, later⟩ := ItemsLookAlike.read_eq rest between
    exact ⟨congrArg₂ List.cons same others, later⟩

theorem EntriesLookAlike.read_eq : ∀ {entries others : List (String × Datum)},
    EntriesLookAlike entries others → ∀ {a b : Objects}, a.LookAlike b →
      ((readEntries others).run b).1 = ((readEntries entries).run a).1 ∧
        ((readEntries entries).run a).2.LookAlike ((readEntries others).run b).2
  | _, _, .nil, _, _, alike => ⟨rfl, alike⟩
  | _, _, @EntriesLookAlike.cons key _ _ _ _ first rest, _, _, alike => by
    obtain ⟨same, between⟩ := LookAlike.read_eq first alike
    obtain ⟨others, later⟩ := EntriesLookAlike.read_eq rest between
    exact ⟨congrArg₂ (fun v rest => (HostValue.str key, v) :: rest) same others, later⟩

end

end Datum

/-! ## Two runs of a computation -/

/-- Two outcomes: related results, or the same reason to stop. -/
inductive EndAlike {ε α α' : Type} (R : α → α' → Prop) : Except ε α → Except ε α' → Prop where
  | ok {x : α} {y : α'} (related : R x y) : EndAlike R (.ok x) (.ok y)
  | error (e : ε) : EndAlike R (.error e) (.error e)

/-- Two computations that end alike from states that are related, and leave related states. -/
def RunAlike {σ ε α α' : Type} (Q : σ → σ → Prop) (R : α → α' → Prop)
    (m : ExceptT ε (StateM σ) α) (n : ExceptT ε (StateM σ) α') : Prop :=
  ∀ s t, Q s t → EndAlike R (m.run.run s).1 (n.run.run t).1 ∧ Q (m.run.run s).2 (n.run.run t).2

namespace RunAlike

variable {σ ε α α' β β' : Type} {Q : σ → σ → Prop} {R : α → α' → Prop} {S : β → β' → Prop}
  {m : ExceptT ε (StateM σ) α} {n : ExceptT ε (StateM σ) α'}

theorem pure {x : α} {y : α'} (related : R x y) :
    RunAlike Q R (Pure.pure x : ExceptT ε (StateM σ) α) (Pure.pure y) := by
  intro s t states
  exact ⟨.ok related, states⟩

theorem throw (e : ε) :
    RunAlike Q R (MonadExcept.throw e : ExceptT ε (StateM σ) α) (MonadExcept.throw e) := by
  intro s t states
  exact ⟨.error e, states⟩

theorem bind {f : α → ExceptT ε (StateM σ) β} {g : α' → ExceptT ε (StateM σ) β'}
    (first : RunAlike Q R m n) (rest : ∀ x y, R x y → RunAlike Q S (f x) (g y)) :
    RunAlike Q S (m >>= f) (n >>= g) := by
  intro s t states
  obtain ⟨outcome, after⟩ := first s t states
  rw [ExceptT.run_bind, ExceptT.run_bind, StateT.run_bind, StateT.run_bind]
  rcases left : m.run.run s with ⟨one, s'⟩
  rcases right : n.run.run t with ⟨other, t'⟩
  rw [left, right] at outcome after
  cases outcome with
  | ok related => exact rest _ _ related s' t' after
  | error e => exact ⟨.error e, after⟩

/-- The second computation goes on from the same result. -/
theorem bind_eq {n : ExceptT ε (StateM σ) α} {f : α → ExceptT ε (StateM σ) β}
    {g : α → ExceptT ε (StateM σ) β'} (first : RunAlike Q Eq m n)
    (rest : ∀ x, RunAlike Q S (f x) (g x)) : RunAlike Q S (m >>= f) (n >>= g) := by
  refine first.bind ?_
  rintro x _ rfl
  exact rest x

end RunAlike

namespace HostM

variable {α α' : Type} {R : α → α' → Prop}

/-- Computations that tell no two heaps apart that look alike. -/
abbrev Discreet (R : α → α' → Prop) (m : HostM α) (n : HostM α') : Prop :=
  RunAlike Objects.LookAlike R m n

theorem discreet_iff {m : HostM α} {n : HostM α'} :
    Discreet R m n ↔ ∀ a b : Objects, a.LookAlike b →
      EndAlike R (m.runOn a).1 (n.runOn b).1 ∧ (m.runOn a).2.LookAlike (n.runOn b).2 := Iff.rfl

theorem Discreet.fail (e : HostError) :
    Discreet R (HostM.fail e : HostM α) (HostM.fail e) := RunAlike.throw (Stop.error e)

theorem instanceOf_discreet (o : ObjectId) :
    Discreet Instance.LookAlike (instanceOf o) (instanceOf o) := by
  intro a b alike
  exact ⟨.ok (alike.each o), alike⟩

theorem readable_discreet (o : ObjectId) :
    Discreet Instance.LookAlike (readable o) (readable o) := by
  refine RunAlike.bind (instanceOf_discreet o) fun i other alike => ?_
  rw [alike.hold, alike.shape]
  split
  · exact Discreet.fail _
  · exact .pure alike

theorem textOf_discreet (v : HostValue) : Discreet Eq (textOf v) (textOf v) := by
  rw [discreet_iff]
  intro a b alike
  have left : (get : HostM Objects).runOn a = (.ok a, a) := rfl
  have right : (get : HostM Objects).runOn b = (.ok b, b) := rfl
  rw [textOf, runOn_bind_ok left, runOn_bind_ok right, alike.text_eq]
  cases a.text v with
  | some text => exact ⟨.ok rfl, alike⟩
  | none => exact ⟨.error Stop.endless, alike⟩

theorem newObject_discreet (shape : Shape) {data others : List Datum}
    (fields : Datum.FieldsLookAlike shape.fields data others) :
    Discreet Eq (newObject shape data) (newObject shape others) := by
  intro a b alike
  obtain ⟨same, later⟩ := alike.add (.record fields)
  exact ⟨.ok same.symm, later⟩

theorem read_discreet {d other : Datum} (alike : d.LookAlike other) :
    Discreet Eq (liftM d.read : HostM HostValue) (liftM other.read) := by
  intro a b heaps
  obtain ⟨same, later⟩ := alike.read_eq heaps
  exact ⟨.ok same.symm, later⟩

/-! ## What is read of an object -/

/-- The rows of an object are read one after the other. -/
theorem readRows_discreet : ∀ {entries others : List (String × Datum)},
    Datum.EntriesLookAlike entries others →
      Discreet Eq
        (entries.mapM fun (name, d) => do return (name, ← liftM d.read) :
          HostM (List (String × HostValue)))
        (others.mapM fun (name, d) => do return (name, ← liftM d.read))
  | _, _, .nil => .pure rfl
  | _, _, .cons first rest => by
    rw [List.mapM_cons, List.mapM_cons]
    refine RunAlike.bind_eq (RunAlike.bind_eq (read_discreet first) fun v => .pure rfl) fun _ => ?_
    exact RunAlike.bind_eq (readRows_discreet rest) fun rows => .pure rfl

theorem publicFields_discreet (o : ObjectId) :
    Discreet Eq (publicFields o) (publicFields o) :=
  RunAlike.bind (readable_discreet o) fun _ _ alike => readRows_discreet alike.publicFields

theorem runOn_readable (o : ObjectId) (objects : Objects) :
    (readable o).runOn objects =
      (if (objects.get o).hold = .exclusive then .error (.error (.busy (objects.get o).shape.name))
        else .ok (objects.get o), objects) := by
  rw [readable, runOn_bind_ok (runOn_instanceOf o objects)]
  split <;> rfl

/-- A public field is read the same on both heaps, and a private one is found on neither. -/
theorem field_discreet (o : ObjectId) (name : String) :
    Discreet Eq (field o name) (field o name) := by
  rw [discreet_iff]
  intro a b alike
  obtain ⟨shape, hold, fields⟩ := alike.each o
  rw [field, runOn_bind_ok (runOn_instanceOf o a), runOn_bind_ok (runOn_instanceOf o b)]
  dsimp only
  rw [shape]
  cases found : (a.get o).shape.publicField? name with
  | none => exact ⟨.ok rfl, alike⟩
  | some declared =>
    obtain ⟨first, isPublic⟩ := Option.filter_eq_some_iff.1 found
    rw [if_neg (by simp), runOn_bind, runOn_bind, runOn_readable, runOn_readable, hold, shape]
    by_cases held : (a.get o).hold = .exclusive
    · rw [if_pos held, if_pos held]
      exact ⟨.error _, alike⟩
    · rw [if_neg held, if_neg held]
      dsimp only
      rw [Instance.stored?, Instance.stored?, shape]
      obtain ⟨none, also⟩ | ⟨d, other, here, there, looks⟩ := fields.find isPublic first
      · rw [none, also]
        exact ⟨.ok rfl, alike⟩
      · rw [here, there]
        exact RunAlike.bind_eq (read_discreet looks) (fun v => .pure rfl) a b alike

/-- A scalar is stored in the same way in objects that look alike. -/
theorem setField_discreet (o : ObjectId) (name : String) {v : HostValue}
    (scalar : v.isScalar = true) : Discreet Eq (setField o name v) (setField o name v) := by
  rw [discreet_iff]
  intro a b alike
  obtain ⟨shape, hold, fields⟩ := alike.each o
  by_cases free : (a.get o).hold = .free
  · rw [setField, runOn_bind_ok (runOn_writable free),
      runOn_bind_ok (runOn_writable (hold.trans free)), shape]
    cases found : (a.get o).shape.publicField? name with
    | none => exact ⟨.error _, alike⟩
    | some declared =>
      dsimp only
      rw [runOn_bind, runOn_bind, runOn_holding, runOn_holding,
        declared.storage.runOn_store_scalar scalar (a.setHold o .exclusive),
        declared.storage.runOn_store_scalar scalar (b.setHold o .exclusive),
        Objects.setHold_setHold, Objects.setHold_setHold]
      cases ((declared.storage.store v).runOn {}).1 with
      | error stop => exact ⟨.error stop, alike⟩
      | ok d =>
        refine ⟨.ok rfl, alike.set o ⟨shape, hold, ?_⟩⟩
        exact fields.setStored name d
  · rw [runOn_setField_held free, runOn_setField_held (hold ▸ free), shape]
    exact ⟨.error _, alike⟩

end HostM

end ScriptHost
