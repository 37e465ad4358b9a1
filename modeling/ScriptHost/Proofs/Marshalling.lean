import Mathlib.Data.List.Perm.Subperm
import ScriptHost.Proofs.Checks

/-!
# Values that scripts have a form for

A host value crosses to the scripts with everything that its structures show: their public fields,
and those of the structures in these.  Where scripts have a form for all of it, and no structure
lies inside itself, the value arrives, unless a writer holds one of the structures at that moment.
-/

namespace ScriptHost

/-- Host values that scripts can have as a key. -/
def Objects.Names (objects : Objects) : HostValue → Prop
  | .nil | .ptr none => False
  | .float x => x.isNaN = false
  | .bool _ | .int _ | .str _ => True
  | v => ∃ text, objects.text v = some text

mutual

/--
Scripts have a form for a value, inside given structures: no part of it is foreign, its maps have
keys that scripts can have, and its structures have public fields of this kind.
-/
inductive HostValue.Marshals (objects : Objects) : List ObjectId → HostValue → Prop where
  | nil {opened : List ObjectId} : HostValue.Marshals objects opened .nil
  | bool {opened : List ObjectId} (b : Bool) : HostValue.Marshals objects opened (.bool b)
  | int {opened : List ObjectId} (i : Int64) : HostValue.Marshals objects opened (.int i)
  | float {opened : List ObjectId} (x : Binary64) : HostValue.Marshals objects opened (.float x)
  | str {opened : List ObjectId} (text : String) : HostValue.Marshals objects opened (.str text)
  | list {opened : List ObjectId} {items : List HostValue}
      (each : ∀ item ∈ items, HostValue.Marshals objects opened item) :
      HostValue.Marshals objects opened (.list items)
  | map {opened : List ObjectId} {pairs : List (HostValue × HostValue)}
      (keys : ∀ pair ∈ pairs, objects.Names pair.1)
      (each : ∀ pair ∈ pairs, HostValue.Marshals objects opened pair.2) :
      HostValue.Marshals objects opened (.map pairs)
  | struct {opened : List ObjectId} {o : ObjectId} (inside : o.index < objects.size)
      (fresh : o ∉ opened)
      (each : ∀ entry ∈ (objects.get o).publicFields,
        Datum.Marshals objects (o :: opened) entry.2) :
      HostValue.Marshals objects opened (.struct o)
  | ptr {opened : List ObjectId} (target : Option ObjectId) :
      HostValue.Marshals objects opened (.ptr target)

/-- Scripts have a form for a stored value. -/
inductive Datum.Marshals (objects : Objects) : List ObjectId → Datum → Prop where
  | bool {opened : List ObjectId} (b : Bool) : Datum.Marshals objects opened (.bool b)
  | int {opened : List ObjectId} (i : Int64) : Datum.Marshals objects opened (.int i)
  | size {opened : List ObjectId} (n : UInt64) : Datum.Marshals objects opened (.size n)
  | float {opened : List ObjectId} (x : Binary64) : Datum.Marshals objects opened (.float x)
  | text {opened : List ObjectId} (text : String) : Datum.Marshals objects opened (.text text)
  | object {opened : List ObjectId} (o : ObjectId) : Datum.Marshals objects opened (.object o)
  | any {opened : List ObjectId} {v : HostValue} (form : HostValue.Marshals objects opened v) :
      Datum.Marshals objects opened (.any v)
  | record {opened : List ObjectId} {shape : Shape} {fields : List Datum}
      (each : ∀ entry ∈ Instance.shown shape.fields fields,
        Datum.Marshals objects opened entry.2) :
      Datum.Marshals objects opened (.record shape fields)
  | absent {opened : List ObjectId} : Datum.Marshals objects opened .absent
  | present {opened : List ObjectId} {content : Datum}
      (form : Datum.Marshals objects opened content) :
      Datum.Marshals objects opened (.present content)
  | list {opened : List ObjectId} {items : List Datum}
      (each : ∀ item ∈ items, Datum.Marshals objects opened item) :
      Datum.Marshals objects opened (.list items)
  | map {opened : List ObjectId} {entries : List (String × Datum)}
      (each : ∀ entry ∈ entries, Datum.Marshals objects opened entry.2) :
      Datum.Marshals objects opened (.map entries)

end

mutual

/-- The structures whose fields a value shows. -/
inductive HostValue.Shows (objects : Objects) : HostValue → ObjectId → Prop where
  | item {items : List HostValue} {item : HostValue} {o : ObjectId} (inside : item ∈ items)
      (shows : HostValue.Shows objects item o) : HostValue.Shows objects (.list items) o
  | pair {pairs : List (HostValue × HostValue)} {pair : HostValue × HostValue} {o : ObjectId}
      (inside : pair ∈ pairs) (shows : HostValue.Shows objects pair.2 o) :
      HostValue.Shows objects (.map pairs) o
  | self (o : ObjectId) : HostValue.Shows objects (.struct o) o
  | field {o p : ObjectId} {entry : String × Datum}
      (inside : entry ∈ (objects.get o).publicFields) (shows : Datum.Shows objects entry.2 p) :
      HostValue.Shows objects (.struct o) p

/-- The structures whose fields a stored value shows. -/
inductive Datum.Shows (objects : Objects) : Datum → ObjectId → Prop where
  | any {v : HostValue} {o : ObjectId} (shows : HostValue.Shows objects v o) :
      Datum.Shows objects (.any v) o
  | record {shape : Shape} {fields : List Datum} {entry : String × Datum} {o : ObjectId}
      (inside : entry ∈ Instance.shown shape.fields fields)
      (shows : Datum.Shows objects entry.2 o) : Datum.Shows objects (.record shape fields) o
  | present {content : Datum} {o : ObjectId} (shows : Datum.Shows objects content o) :
      Datum.Shows objects (.present content) o
  | item {items : List Datum} {item : Datum} {o : ObjectId} (inside : item ∈ items)
      (shows : Datum.Shows objects item o) : Datum.Shows objects (.list items) o
  | entry {entries : List (String × Datum)} {entry : String × Datum} {o : ObjectId}
      (inside : entry ∈ entries) (shows : Datum.Shows objects entry.2 o) :
      Datum.Shows objects (.map entries) o

end

/-! ## Parts of values with a form -/

section

variable {objects : Objects} {opened : List ObjectId}

theorem Objects.Names.lasts {v : HostValue} (names : objects.Names v) : objects.Lasts v := by
  intro later more
  have text : ∃ text, objects.text v = some text := by
    cases v with
    | nil => exact absurd names id
    | bool | int | float | str => exact ⟨_, rfl⟩
    | ptr target =>
      cases target with
      | none => exact absurd names id
      | some o => exact names
    | list | map | struct | foreign => exact names
  obtain ⟨text, found⟩ := text
  rw [found]
  exact more.text v text found

theorem Objects.Names.keyStop {v : HostValue} (names : objects.Names v) :
    objects.keyStop v = none := by
  cases v with
  | nil => exact absurd names id
  | bool | int | str => rfl
  | float x =>
    have number : x.isNaN = false := names
    rw [Objects.keyStop, number]
    rfl
  | ptr target =>
    cases target with
    | none => exact absurd names id
    | some o => exact Objects.textStop_of_text names.choose_spec
  | list | map | struct | foreign => exact Objects.textStop_of_text names.choose_spec

/-- Checks that pass: keys that scripts can have, and structures with a form. -/
def Objects.Fits (objects : Objects) (opened : List ObjectId) : Check → Prop
  | .foreign _ => False
  | .key k => objects.Names k
  | .struct o => HostValue.Marshals objects opened (.struct o)

theorem HostValue.Marshals.fits {v : HostValue} {c : Check} (form : v.Marshals objects opened)
    (has : v.Has c) : objects.Fits opened c := by
  induction has with
  | item inside _ ih =>
    cases form with
    | list each => exact ih (each _ inside)
  | key inside =>
    cases form with
    | map keys _ => exact keys _ inside
  | pair inside _ ih =>
    cases form with
    | map _ each => exact ih (each _ inside)
  | struct => exact form
  | foreign => cases form

theorem Datum.Marshals.fits {d : Datum} {c : Check} (form : d.Marshals objects opened)
    (has : d.Has c) : objects.Fits opened c := by
  induction has with
  | any has =>
    cases form with
    | any form => exact form.fits has
  | record inside _ ih =>
    cases form with
    | record each => exact ih (each _ inside)
  | present _ ih =>
    cases form with
    | present form => exact ih form
  | item inside _ ih =>
    cases form with
    | list each => exact ih (each _ inside)
  | entry inside _ ih =>
    cases form with
    | map each => exact ih (each _ inside)

/-- A structure with a form, inside different objects of the heap. -/
def Objects.Enclosed (objects : Objects) (o : ObjectId) : Prop :=
  ∃ opened : List ObjectId, opened.Nodup ∧ (∀ p ∈ opened, p.index < objects.size) ∧
    HostValue.Marshals objects opened (.struct o)

theorem Objects.ready_of_fits (distinct : opened.Nodup)
    (inside : ∀ p ∈ opened, p.index < objects.size) {checks : List Check}
    (fits : ∀ c ∈ checks, objects.Fits opened c) : objects.Ready objects.Enclosed checks where
  keys k isCheck := Objects.Names.lasts (fits (.key k) isCheck)
  structs o isCheck := ⟨opened, distinct, inside, fits (.struct o) isCheck⟩

/-! ## Structures that are shown -/

theorem HostValue.Has.shows {v : HostValue} {p o : ObjectId} (has : v.Has (.struct p))
    (shows : (HostValue.struct p).Shows objects o) : v.Shows objects o := by
  generalize same : Check.struct p = c at has
  induction has with
  | item inside _ ih => exact .item inside (ih same)
  | pair inside _ ih => exact .pair inside (ih same)
  | struct =>
    cases same
    exact shows
  | key | foreign => cases same

theorem Datum.Has.shows {d : Datum} {p o : ObjectId} (has : d.Has (.struct p))
    (shows : (HostValue.struct p).Shows objects o) : d.Shows objects o := by
  generalize same : Check.struct p = c at has
  induction has with
  | any has =>
    subst same
    exact .any (has.shows shows)
  | record inside _ ih => exact .record inside (ih same)
  | present _ ih => exact .present (ih same)
  | item inside _ ih => exact .item inside (ih same)
  | entry inside _ ih => exact .entry inside (ih same)

/-- What a value shows, a structure shows that is checked in it. -/
theorem HostValue.Shows.part {v : HostValue} {o : ObjectId} :
    v.Shows objects o → ∃ p, v.Has (.struct p) ∧ (HostValue.struct p).Shows objects o
  | .item inside shows => by
    obtain ⟨p, has, shows⟩ := HostValue.Shows.part shows
    exact ⟨p, .item inside has, shows⟩
  | .pair inside shows => by
    obtain ⟨p, has, shows⟩ := HostValue.Shows.part shows
    exact ⟨p, .pair inside has, shows⟩
  | .self o => ⟨o, .struct o, .self o⟩
  | .field inside shows => ⟨_, .struct _, .field inside shows⟩

theorem Datum.Shows.part {d : Datum} {o : ObjectId} :
    d.Shows objects o → ∃ p, d.Has (.struct p) ∧ (HostValue.struct p).Shows objects o
  | .any shows => by
    obtain ⟨p, has, shows⟩ := HostValue.Shows.part shows
    exact ⟨p, .any has, shows⟩
  | .record inside shows => by
    obtain ⟨p, has, shows⟩ := Datum.Shows.part shows
    exact ⟨p, .record inside has, shows⟩
  | .present shows => by
    obtain ⟨p, has, shows⟩ := Datum.Shows.part shows
    exact ⟨p, .present has, shows⟩
  | .item inside shows => by
    obtain ⟨p, has, shows⟩ := Datum.Shows.part shows
    exact ⟨p, .item inside has, shows⟩
  | .entry inside shows => by
    obtain ⟨p, has, shows⟩ := Datum.Shows.part shows
    exact ⟨p, .entry inside has, shows⟩

end

namespace Crossing

open MachineM

/-- Different objects of a heap are no more than it has. -/
theorem length_le_of_inside {base : Objects} {opened : List ObjectId} (distinct : opened.Nodup)
    (inside : ∀ o ∈ opened, o.index < base.size) : opened.length ≤ base.size := by
  have indices : (opened.map (·.index)).Nodup := by
    refine distinct.map fun a b same => ?_
    cases a
    cases b
    exact congrArg ObjectId.mk same
  have among : opened.map (·.index) ⊆ List.range base.size := by
    intro index found
    obtain ⟨o, listed, rfl⟩ := List.mem_map.1 found
    exact List.mem_range.2 (inside o listed)
  have short := (List.subperm_of_subset indices among).length_le
  rwa [List.length_map, List.length_range] at short

/-- Where a crossing stops tells whether a writer holds one of given structures. -/
def Tells (base : Objects) (needs : ObjectId → Prop) : Option (Stop CrossingError) → Prop
  | none => ∀ o, needs o → (base.get o).hold ≠ .exclusive
  | some stop => ∃ o, needs o ∧ (base.get o).hold = .exclusive ∧
      stop = .error (.host (.busy (base.get o).shape.name))

section

variable {base : Objects} {opened : List ObjectId}
  {structs : ObjectId → Option (Stop CrossingError)}

theorem Tells.ne_endless {needs : ObjectId → Prop} {stop : Option (Stop CrossingError)}
    (tells : Tells base needs stop) : stop ≠ some .endless := by
  rintro rfl
  obtain ⟨o, -, -, same⟩ := tells
  cases same

/-- Among checks that fit, only structures stop a crossing. -/
theorem firstStop_tells {checks : List Check} (fits : ∀ c ∈ checks, base.Fits opened c)
    (each : ∀ p, HostValue.Marshals base opened (.struct p) →
      Tells base (HostValue.Shows base (.struct p)) (structs p)) :
    Tells base (fun o => ∃ p, .struct p ∈ checks ∧ (HostValue.struct p).Shows base o)
      (base.firstStop structs checks) := by
  cases found : base.firstStop structs checks with
  | none =>
    rintro o ⟨p, inside, shows⟩
    have passes : structs p = none := List.findSome?_eq_none_iff.1 found _ inside
    have tells := each p (fits _ inside)
    rw [passes] at tells
    exact tells o shows
  | some stop =>
    obtain ⟨c, inside, stops⟩ := List.exists_of_findSome?_eq_some found
    cases c with
    | foreign kind => exact absurd (fits _ inside) id
    | key k => cases (Objects.Names.keyStop (fits _ inside)).symm.trans stops
    | struct p =>
      have tells := each p (fits _ inside)
      rw [show structs p = some stop from stops] at tells
      obtain ⟨o, shows, held⟩ := tells
      exact ⟨o, ⟨p, inside, shows⟩, held⟩

/-- An object that no writer holds tells what its fields do. -/
theorem objectStop_tells {o : ObjectId}
    (form : ∀ entry ∈ (base.get o).publicFields, entry.2.Marshals base opened)
    (each : ∀ p, HostValue.Marshals base opened (.struct p) →
      Tells base (HostValue.Shows base (.struct p)) (structs p)) :
    Tells base (HostValue.Shows base (.struct o)) (base.objectStop structs o) := by
  have fits (c) (inside : c ∈ base.shownChecks o) : base.Fits opened c := by
    obtain ⟨entry, shown, has⟩ := Objects.mem_shownChecks.1 inside
    exact (form entry shown).fits has
  have tells := firstStop_tells fits each
  rw [Objects.objectStop]
  by_cases held : (base.get o).hold = .exclusive
  · rw [if_pos held]
    exact ⟨o, .self o, held, rfl⟩
  · rw [if_neg held]
    cases found : base.firstStop structs (base.shownChecks o) with
    | none =>
      rw [found] at tells
      intro p shows
      cases shows with
      | self => exact held
      | field shown shows =>
        obtain ⟨q, has, shows⟩ := shows.part
        exact tells p ⟨q, Objects.mem_shownChecks.2 ⟨_, shown, has⟩, shows⟩
    | some stop =>
      rw [found] at tells
      obtain ⟨p, ⟨q, inside, shows⟩, stops⟩ := tells
      obtain ⟨entry, shown, has⟩ := Objects.mem_shownChecks.1 inside
      exact ⟨p, .field shown (has.shows shows), stops⟩

end

/--
Structures lie inside each other no deeper than there are objects: those around a structure are
different from each other and from it.
-/
theorem stopAt_tells {base : Objects} (depth : Nat) {opened : List ObjectId}
    (distinct : opened.Nodup) (inside : ∀ o ∈ opened, o.index < base.size)
    (deep : base.size ≤ depth + opened.length) (o : ObjectId)
    (form : HostValue.Marshals base opened (.struct o)) :
    Tells base (HostValue.Shows base (.struct o)) (base.stopAt depth o) := by
  induction depth generalizing opened o with
  | zero =>
    cases form with
    | struct within fresh =>
      have short := length_le_of_inside (List.nodup_cons.2 ⟨fresh, distinct⟩)
        (List.forall_mem_cons.2 ⟨within, inside⟩)
      rw [List.length_cons] at short
      omega
  | succ depth ih =>
    cases form with
    | struct within fresh each =>
      refine objectStop_tells each fun p inner => ?_
      refine ih (List.nodup_cons.2 ⟨fresh, distinct⟩)
        (List.forall_mem_cons.2 ⟨within, inside⟩) ?_ p inner
      rw [List.length_cons]
      omega

/-- A structure with a form crosses; the reason why it may not is a writer. -/
theorem structure?_of_enclosed (base : Objects) :
    CrossesStructs base base.Enclosed (base.stopAt base.size) structure? := by
  refine structure?_crosses ?_ ?_ ?_
  · rintro o ⟨opened, -, -, form⟩
    cases form with
    | struct within => exact within
  · rintro o ⟨opened, distinct, inside, form⟩ -
    cases form with
    | struct within fresh each =>
      refine Objects.ready_of_fits (List.nodup_cons.2 ⟨fresh, distinct⟩)
        (List.forall_mem_cons.2 ⟨within, inside⟩) fun c isCheck => ?_
      obtain ⟨entry, shown, has⟩ := Objects.mem_shownChecks.1 isCheck
      exact (each entry shown).fits has
  · rintro o ⟨opened, distinct, inside, form⟩ depth deep
    refine Objects.stopAt_eq_of_le deep ?_
    exact (stopAt_tells _ distinct inside (Nat.le_add_right _ _) o form).ne_endless

/--
A host value that scripts have a form for crosses, if no writer holds a structure whose fields it
shows, and is refused because of such a structure otherwise.
-/
theorem runOn_toScript_of_marshals {s : Machine} {v : HostValue}
    (form : v.Marshals s.objects []) :
    ((∀ o, v.Shows s.objects o → (s.objects.get o).hold ≠ .exclusive) ∧
      ∃ w t, (toScript v).runOn s = (.ok w, t)) ∨
    ∃ o t, v.Shows s.objects o ∧ (s.objects.get o).hold = .exclusive ∧
      (toScript v).runOn s =
        (.error (.error (.host (.busy (s.objects.get o).shape.name))), t) := by
  have fits (c) (inside : c ∈ v.checks) : s.objects.Fits [] c :=
    form.fits (HostValue.mem_checks.1 inside)
  have tells := firstStop_tells fits fun p =>
    stopAt_tells s.objects.size .nil (List.forall_mem_nil _) (Nat.le_refl _) p
  have ready := Objects.ready_of_fits .nil (List.forall_mem_nil _) fits
  have crosses := value_crosses (structure?_of_enclosed s.objects) v ready s (.refl _)
  cases found : s.objects.firstStop (s.objects.stopAt s.objects.size) v.checks with
  | none =>
    rw [found] at tells crosses
    obtain ⟨w, t, run, -⟩ := crosses
    refine .inl ⟨fun o shows => ?_, w, t, run⟩
    obtain ⟨p, has, shows⟩ := shows.part
    exact tells o ⟨p, has.mem, shows⟩
  | some stop =>
    rw [found] at tells crosses
    obtain ⟨t, run⟩ := crosses
    obtain ⟨o, ⟨p, inside, shows⟩, held, rfl⟩ := tells
    exact .inr ⟨o, t, (HostValue.mem_checks.1 inside).shows shows, held, run⟩

end Crossing

end ScriptHost
