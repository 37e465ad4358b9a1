import ScriptHost.Proofs.Growth

/-!
# What a crossing checks

On the way to the scripts a host value is taken apart in order: parts without a form, the keys of
maps, and structures are checked one after the other.  The crossing stops at the first check that
does not pass, and has a result if all of them do.
-/

namespace ScriptHost

/-- The public ones of stored values, with the names of their fields. -/
def Instance.shown (declared : List Field) (data : List Datum) : List (String × Datum) :=
  (declared.zip data).filterMap fun (field, datum) =>
    if field.isPublic then some (field.name, datum) else none

theorem Instance.shown_cons (field : Field) (declared : List Field) (datum : Datum)
    (data : List Datum) :
    shown (field :: declared) (datum :: data) =
      if field.isPublic then (field.name, datum) :: shown declared data
      else shown declared data := by
  by_cases isPublic : field.isPublic = true
  · simp [shown, isPublic]
  · simp [shown, isPublic]

/-! ## Checks -/

inductive Check where
  | foreign (kind : String)
  | key (key : HostValue)
  | struct (object : ObjectId)

/-- A crossing checks something in a host value. -/
inductive HostValue.Has : HostValue → Check → Prop where
  | item {items : List HostValue} {item : HostValue} {c : Check} (inside : item ∈ items)
      (has : HostValue.Has item c) : HostValue.Has (.list items) c
  | key {pairs : List (HostValue × HostValue)} {pair : HostValue × HostValue}
      (inside : pair ∈ pairs) : HostValue.Has (.map pairs) (.key pair.1)
  | pair {pairs : List (HostValue × HostValue)} {pair : HostValue × HostValue} {c : Check}
      (inside : pair ∈ pairs) (has : HostValue.Has pair.2 c) : HostValue.Has (.map pairs) c
  | struct (o : ObjectId) : HostValue.Has (.struct o) (.struct o)
  | foreign (kind : String) : HostValue.Has (.foreign kind) (.foreign kind)

/-- A crossing checks something in a stored value; records show their public fields. -/
inductive Datum.Has : Datum → Check → Prop where
  | any {v : HostValue} {c : Check} (has : v.Has c) : Datum.Has (.any v) c
  | record {shape : Shape} {fields : List Datum} {entry : String × Datum} {c : Check}
      (inside : entry ∈ Instance.shown shape.fields fields) (has : Datum.Has entry.2 c) :
      Datum.Has (.record shape fields) c
  | present {content : Datum} {c : Check} (has : Datum.Has content c) :
      Datum.Has (.present content) c
  | item {items : List Datum} {item : Datum} {c : Check} (inside : item ∈ items)
      (has : Datum.Has item c) : Datum.Has (.list items) c
  | entry {entries : List (String × Datum)} {entry : String × Datum} {c : Check}
      (inside : entry ∈ entries) (has : Datum.Has entry.2 c) : Datum.Has (.map entries) c

mutual

/-- The checks in a host value, in the order of the crossing. -/
def HostValue.checks : HostValue → List Check
  | .nil | .bool _ | .int _ | .float _ | .str _ | .ptr _ => []
  | .list items => HostValue.checksOfItems items
  | .map pairs => HostValue.checksOfPairs pairs
  | .struct o => [.struct o]
  | .foreign kind => [.foreign kind]

def HostValue.checksOfItems : List HostValue → List Check
  | [] => []
  | item :: rest => item.checks ++ HostValue.checksOfItems rest

def HostValue.checksOfPairs : List (HostValue × HostValue) → List Check
  | [] => []
  | (k, item) :: rest => .key k :: (item.checks ++ HostValue.checksOfPairs rest)

end

mutual

/-- The checks in a stored value, in the order of the crossing. -/
def Datum.checks : Datum → List Check
  | .bool _ | .int _ | .size _ | .float _ | .text _ | .object _ | .absent => []
  | .any v => v.checks
  | .record shape fields => Datum.checksOfFields shape.fields fields
  | .present content => content.checks
  | .list items => Datum.checksOfItems items
  | .map entries => Datum.checksOfEntries entries

def Datum.checksOfItems : List Datum → List Check
  | [] => []
  | item :: rest => item.checks ++ Datum.checksOfItems rest

def Datum.checksOfEntries : List (String × Datum) → List Check
  | [] => []
  | (_, item) :: rest => item.checks ++ Datum.checksOfEntries rest

def Datum.checksOfFields (declared : List Field) : List Datum → List Check
  | [] => []
  | item :: rest =>
    match declared with
    | [] => []
    | field :: declared =>
      if field.isPublic then item.checks ++ Datum.checksOfFields declared rest
      else Datum.checksOfFields declared rest

end

namespace HostValue

theorem checksOfItems_eq (items : List HostValue) : checksOfItems items = items.flatMap checks := by
  induction items with
  | nil => rfl
  | cons item rest ih => rw [checksOfItems, ih, List.flatMap_cons]

theorem checksOfPairs_eq (pairs : List (HostValue × HostValue)) :
    checksOfPairs pairs = pairs.flatMap fun pair => .key pair.1 :: pair.2.checks := by
  induction pairs with
  | nil => rfl
  | cons pair rest ih => rw [checksOfPairs, ih, List.flatMap_cons, List.cons_append]

/-- What is checked in a value is in the list of its checks. -/
theorem Has.mem {v : HostValue} {c : Check} (has : v.Has c) : c ∈ v.checks := by
  induction has with
  | item inside _ ih =>
    rw [checks, checksOfItems_eq]
    exact List.mem_flatMap_of_mem inside ih
  | key inside =>
    rw [checks, checksOfPairs_eq]
    exact List.mem_flatMap_of_mem inside List.mem_cons_self
  | pair inside _ ih =>
    rw [checks, checksOfPairs_eq]
    exact List.mem_flatMap_of_mem inside (List.mem_cons_of_mem _ ih)
  | struct o => exact List.mem_singleton.2 rfl
  | foreign kind => exact List.mem_singleton.2 rfl

mutual

theorem has_of_mem {c : Check} : ∀ v : HostValue, c ∈ v.checks → v.Has c
  | .nil, inside | .bool _, inside | .int _, inside | .float _, inside | .str _, inside
  | .ptr _, inside => by cases inside
  | .list items, inside => by
    obtain ⟨item, isItem, has⟩ := has_of_mem_items items inside
    exact .item isItem has
  | .map pairs, inside => by
    obtain ⟨pair, isPair, rfl | has⟩ := has_of_mem_pairs pairs inside
    · exact .key isPair
    · exact .pair isPair has
  | .struct o, inside => by
    obtain rfl := List.mem_singleton.1 inside
    exact .struct o
  | .foreign kind, inside => by
    obtain rfl := List.mem_singleton.1 inside
    exact .foreign kind

theorem has_of_mem_items {c : Check} :
    ∀ items : List HostValue, c ∈ checksOfItems items → ∃ item ∈ items, item.Has c
  | [], inside => by cases inside
  | item :: rest, inside => by
    rw [List.exists_mem_cons_iff]
    exact (List.mem_append.1 inside).imp (has_of_mem item) (has_of_mem_items rest)

theorem has_of_mem_pairs {c : Check} :
    ∀ pairs : List (HostValue × HostValue), c ∈ checksOfPairs pairs →
      ∃ pair ∈ pairs, c = .key pair.1 ∨ pair.2.Has c
  | [], inside => by cases inside
  | (k, item) :: rest, inside => by
    rw [List.exists_mem_cons_iff, or_assoc]
    exact (List.mem_cons.1 inside).imp id fun later =>
      (List.mem_append.1 later).imp (has_of_mem item) (has_of_mem_pairs rest)

end

theorem mem_checks {v : HostValue} {c : Check} : c ∈ v.checks ↔ v.Has c :=
  ⟨has_of_mem v, Has.mem⟩

end HostValue

namespace Datum

theorem checksOfItems_eq (items : List Datum) : checksOfItems items = items.flatMap checks := by
  induction items with
  | nil => rfl
  | cons item rest ih => rw [checksOfItems, ih, List.flatMap_cons]

theorem checksOfEntries_eq (entries : List (String × Datum)) :
    checksOfEntries entries = entries.flatMap fun entry => entry.2.checks := by
  induction entries with
  | nil => rfl
  | cons entry rest ih => rw [checksOfEntries, ih, List.flatMap_cons]

theorem checksOfFields_eq (declared : List Field) (data : List Datum) :
    checksOfFields declared data =
      (Instance.shown declared data).flatMap fun entry => entry.2.checks := by
  induction data generalizing declared with
  | nil => simp [checksOfFields, Instance.shown]
  | cons item rest ih =>
    cases declared with
    | nil => rfl
    | cons field declared =>
      rw [checksOfFields, Instance.shown_cons, ih]
      by_cases isPublic : field.isPublic = true
      · rw [if_pos isPublic, if_pos isPublic, List.flatMap_cons]
      · rw [if_neg isPublic, if_neg isPublic]

theorem Has.mem {d : Datum} {c : Check} (has : d.Has c) : c ∈ d.checks := by
  induction has with
  | any has => exact has.mem
  | record inside _ ih =>
    rw [checks, checksOfFields_eq]
    exact List.mem_flatMap_of_mem inside ih
  | present _ ih => exact ih
  | item inside _ ih =>
    rw [checks, checksOfItems_eq]
    exact List.mem_flatMap_of_mem inside ih
  | entry inside _ ih =>
    rw [checks, checksOfEntries_eq]
    exact List.mem_flatMap_of_mem inside ih

mutual

theorem has_of_mem {c : Check} : ∀ d : Datum, c ∈ d.checks → d.Has c
  | .bool _, inside | .int _, inside | .size _, inside | .float _, inside | .text _, inside
  | .object _, inside | .absent, inside => by cases inside
  | .any v, inside => .any (v.has_of_mem inside)
  | .record shape data, inside => by
    obtain ⟨entry, isEntry, has⟩ := has_of_mem_fields shape.fields data inside
    exact .record isEntry has
  | .present content, inside => .present (has_of_mem content inside)
  | .list items, inside => by
    obtain ⟨item, isItem, has⟩ := has_of_mem_items items inside
    exact .item isItem has
  | .map entries, inside => by
    obtain ⟨entry, isEntry, has⟩ := has_of_mem_entries entries inside
    exact .entry isEntry has

theorem has_of_mem_items {c : Check} :
    ∀ items : List Datum, c ∈ checksOfItems items → ∃ item ∈ items, item.Has c
  | [], inside => by cases inside
  | item :: rest, inside => by
    rw [List.exists_mem_cons_iff]
    exact (List.mem_append.1 inside).imp (has_of_mem item) (has_of_mem_items rest)

theorem has_of_mem_entries {c : Check} :
    ∀ entries : List (String × Datum), c ∈ checksOfEntries entries →
      ∃ entry ∈ entries, entry.2.Has c
  | [], inside => by cases inside
  | (key, item) :: rest, inside => by
    rw [List.exists_mem_cons_iff]
    exact (List.mem_append.1 inside).imp (has_of_mem item) (has_of_mem_entries rest)

theorem has_of_mem_fields {c : Check} :
    ∀ (declared : List Field) (data : List Datum), c ∈ checksOfFields declared data →
      ∃ entry ∈ Instance.shown declared data, entry.2.Has c
  | _, [], inside => by
    rw [checksOfFields] at inside
    cases inside
  | [], _ :: _, inside => by cases inside
  | field :: declared, item :: rest, inside => by
    rw [checksOfFields] at inside
    rw [Instance.shown_cons]
    by_cases isPublic : field.isPublic = true
    · rw [if_pos isPublic] at inside ⊢
      rw [List.exists_mem_cons_iff]
      exact (List.mem_append.1 inside).imp (has_of_mem item) (has_of_mem_fields declared rest)
    · rw [if_neg isPublic] at inside ⊢
      exact has_of_mem_fields declared rest inside

end

theorem mem_checks {d : Datum} {c : Check} : c ∈ d.checks ↔ d.Has c :=
  ⟨has_of_mem d, Has.mem⟩

end Datum

namespace Objects

/-- What an object's crossing checks in its public fields. -/
def shownChecks (objects : Objects) (o : ObjectId) : List Check :=
  (objects.get o).publicFields.flatMap fun entry => entry.2.checks

theorem mem_shownChecks {objects : Objects} {o : ObjectId} {c : Check} :
    c ∈ objects.shownChecks o ↔ ∃ entry ∈ (objects.get o).publicFields, entry.2.Has c := by
  rw [shownChecks, List.mem_flatMap]
  exact exists_congr fun entry => and_congr_right fun _ => Datum.mem_checks

/-- Where a host value that becomes its text stops a crossing. -/
def textStop (objects : Objects) (v : HostValue) : Option (Stop CrossingError) :=
  match objects.text v with
  | some _ => none
  | none => some .endless

/-- Where a host value that becomes a key stops a crossing. -/
def keyStop (objects : Objects) : HostValue → Option (Stop CrossingError)
  | .nil | .ptr none => some (.error (.invalidKey "nil"))
  | .bool _ | .int _ | .str _ => none
  | .float x => if x.isNaN then some (.error (.invalidKey "NaN")) else none
  | v => objects.textStop v

/-- Where a check stops a crossing, given where structures do. -/
def judge (objects : Objects) (structs : ObjectId → Option (Stop CrossingError)) :
    Check → Option (Stop CrossingError)
  | .foreign kind => some (.error (.unsupported kind))
  | .key k => objects.keyStop k
  | .struct o => structs o

/-- Where the first of some checks that does not pass stops a crossing. -/
def firstStop (objects : Objects) (structs : ObjectId → Option (Stop CrossingError))
    (checks : List Check) : Option (Stop CrossingError) :=
  checks.findSome? (objects.judge structs)

/-- Where an object stops a crossing: a writer holds it, or a check of its fields does not pass. -/
def objectStop (objects : Objects) (structs : ObjectId → Option (Stop CrossingError))
    (o : ObjectId) : Option (Stop CrossingError) :=
  if (objects.get o).hold = .exclusive then
    some (.error (.host (.busy (objects.get o).shape.name)))
  else objects.firstStop structs (objects.shownChecks o)

/-- Where an object stops a crossing in which structures lie at most so deep inside each other. -/
def stopAt (objects : Objects) : Nat → ObjectId → Option (Stop CrossingError)
  | 0, _ => some .endless
  | depth + 1, o => objects.objectStop (objects.stopAt depth) o

/-- A value has the same text, or none, whatever objects are added. -/
def Lasts (objects : Objects) (v : HostValue) : Prop :=
  ∀ later, objects.Extends later → later.text v = objects.text v

/-- Checks with keys whose texts last, and with structures of a given kind. -/
structure Ready (objects : Objects) (good : ObjectId → Prop) (checks : List Check) : Prop where
  keys : ∀ k, .key k ∈ checks → objects.Lasts k
  structs : ∀ o, .struct o ∈ checks → good o

section

variable {objects : Objects} {good : ObjectId → Prop}
  {structs : ObjectId → Option (Stop CrossingError)}

theorem textStop_of_text {v : HostValue} {text : String} (found : objects.text v = some text) :
    objects.textStop v = none := by
  rw [textStop, found]

theorem textStop_eq_some {v : HostValue} {stop : Stop CrossingError}
    (stops : objects.textStop v = some stop) : stop = .endless ∧ objects.text v = none := by
  rw [textStop] at stops
  cases found : objects.text v with
  | some text =>
    rw [found] at stops
    cases stops
  | none =>
    rw [found] at stops
    exact ⟨(Option.some.inj stops).symm, rfl⟩

/-- A key is refused with an error, or its text has no end. -/
theorem keyStop_eq_some {k : HostValue} {stop : Stop CrossingError}
    (stops : objects.keyStop k = some stop) :
    (∃ e, stop = .error e) ∨ stop = .endless ∧ objects.text k = none := by
  cases k with
  | nil => exact .inl ⟨_, (Option.some.inj stops).symm⟩
  | bool | int | str => cases stops
  | float x =>
    rw [keyStop] at stops
    by_cases isNaN : x.isNaN = true
    · rw [if_pos isNaN] at stops
      exact .inl ⟨_, (Option.some.inj stops).symm⟩
    · rw [if_neg isNaN] at stops
      cases stops
  | ptr target =>
    cases target with
    | none => exact .inl ⟨_, (Option.some.inj stops).symm⟩
    | some o => exact .inr (textStop_eq_some stops)
  | list | map | struct | foreign => exact .inr (textStop_eq_some stops)

theorem Ready.of_append {checks others : List Check}
    (ready : objects.Ready good (checks ++ others)) :
    objects.Ready good checks ∧ objects.Ready good others :=
  ⟨⟨fun k inside => ready.keys k (List.mem_append_left _ inside),
      fun o inside => ready.structs o (List.mem_append_left _ inside)⟩,
    ⟨fun k inside => ready.keys k (List.mem_append_right _ inside),
      fun o inside => ready.structs o (List.mem_append_right _ inside)⟩⟩

theorem Ready.of_cons {c : Check} {checks : List Check} (ready : objects.Ready good (c :: checks)) :
    objects.Ready good checks where
  keys k inside := ready.keys k (List.mem_cons_of_mem _ inside)
  structs o inside := ready.structs o (List.mem_cons_of_mem _ inside)

theorem firstStop_append (checks others : List Check) :
    objects.firstStop structs (checks ++ others) =
      (objects.firstStop structs checks).or (objects.firstStop structs others) :=
  List.findSome?_append

theorem firstStop_cons (c : Check) (checks : List Check) :
    objects.firstStop structs (c :: checks) =
      (objects.judge structs c).or (objects.firstStop structs checks) := by
  rw [firstStop, List.findSome?_cons]
  cases objects.judge structs c <;> rfl

theorem firstStop_singleton (c : Check) :
    objects.firstStop structs [c] = objects.judge structs c :=
  (firstStop_cons c []).trans Option.or_none

/-- Where structures that end do so in the same way, checks that end do, too. -/
theorem firstStop_eq_of_ends {others : ObjectId → Option (Stop CrossingError)}
    (same : ∀ o, structs o ≠ some .endless → others o = structs o) {checks : List Check}
    (ends : objects.firstStop structs checks ≠ some .endless) :
    objects.firstStop others checks = objects.firstStop structs checks := by
  induction checks with
  | nil => rfl
  | cons c rest ih =>
    rw [firstStop_cons] at ends ⊢
    rw [firstStop_cons]
    have first : objects.judge structs c ≠ some .endless := by
      intro endless
      rw [endless] at ends
      exact ends rfl
    have kept : objects.judge others c = objects.judge structs c := by
      cases c with
      | struct o => exact same o first
      | foreign | key => rfl
    rw [kept]
    cases found : objects.judge structs c with
    | some stop => rfl
    | none =>
      rw [found] at ends
      exact ih ends

/-- An object that ends at a depth does so in the same way at every greater depth. -/
theorem stopAt_succ {depth : Nat} {o : ObjectId} (ends : objects.stopAt depth o ≠ some .endless) :
    objects.stopAt (depth + 1) o = objects.stopAt depth o := by
  induction depth generalizing o with
  | zero => exact absurd rfl ends
  | succ depth ih =>
    rw [stopAt, objectStop] at ends ⊢
    rw [stopAt, objectStop]
    by_cases held : (objects.get o).hold = .exclusive
    · rw [if_pos held, if_pos held]
    · rw [if_neg held] at ends ⊢
      rw [if_neg held]
      exact firstStop_eq_of_ends (fun o => ih) ends

theorem stopAt_eq_of_le {depth deeper : Nat} (le : depth ≤ deeper) {o : ObjectId}
    (ends : objects.stopAt depth o ≠ some .endless) :
    objects.stopAt deeper o = objects.stopAt depth o := by
  induction le with
  | refl => rfl
  | step _ ih => rw [stopAt_succ (ih ▸ ends), ih]

end

end Objects

namespace Crossing

open MachineM

/-! ## Computations that arrive or stop -/

/--
A computation on a heap, to which it may add objects: it has a result, or stops in a way that the
heap alone decides.
-/
def Crosses {α : Type} (base : Objects) (stop : Option (Stop CrossingError)) (m : CrossingM α) :
    Prop :=
  ∀ s : Machine, base.Extends s.objects →
    match stop with
    | none => ∃ a t, m.runOn s = (.ok a, t) ∧ base.Extends t.objects
    | some stop => ∃ t, m.runOn s = (.error stop, t)

section

variable {α β : Type} {base : Objects} {stop also : Option (Stop CrossingError)}

/-- A computation that has a result on every machine, and adds objects at most. -/
theorem crosses_freely {m : CrossingM α} (runs : ∀ s, base.Extends s.objects →
      ∃ a t, m.runOn s = (.ok a, t) ∧ s.objects.Extends t.objects) : Crosses base none m := by
  intro s later
  obtain ⟨a, t, run, more⟩ := runs s later
  exact ⟨a, t, run, later.trans more⟩

theorem crosses_pure (a : α) : Crosses base none (pure a : CrossingM α) :=
  crosses_freely fun s _ => ⟨a, s, rfl, .refl _⟩

theorem crosses_fail (e : CrossingError) : Crosses base (some (.error e)) (fail e : CrossingM α) :=
  fun s _ => ⟨s, rfl⟩

/-- A computation with a step before it that has a result. -/
theorem Crosses.after {m : CrossingM α} {rest : α → CrossingM β}
    (step : ∀ s, base.Extends s.objects →
      ∃ a t, m.runOn s = (.ok a, t) ∧ s.objects.Extends t.objects ∧ Crosses base stop (rest a)) :
    Crosses base stop (m >>= rest) := by
  intro s later
  obtain ⟨a, t, run, more, crosses⟩ := step s later
  rw [runOn_bind_ok run]
  exact crosses t (later.trans more)

/-- Of two computations the first one that stops does. -/
theorem Crosses.bind {m : CrossingM α} {rest : α → CrossingM β} (first : Crosses base stop m)
    (others : ∀ a, Crosses base also (rest a)) : Crosses base (stop.or also) (m >>= rest) := by
  intro s later
  cases stop with
  | none =>
    obtain ⟨a, t, run, still⟩ := first s later
    rw [runOn_bind_ok run]
    exact others a t still
  | some stop =>
    obtain ⟨t, run⟩ := first s later
    exact ⟨t, runOn_bind_stop run _⟩

/-- A computation with steps after it that have a result. -/
theorem Crosses.before {m : CrossingM α} {rest : α → CrossingM β} (first : Crosses base stop m)
    (others : ∀ a, Crosses base none (rest a)) : Crosses base stop (m >>= rest) := by
  have crosses := first.bind others
  rwa [Option.or_none] at crosses

/-- One more entry in front of those that are set later. -/
theorem Crosses.entry {m : CrossingM Value} {rest : CrossingM Unit} (first : Crosses base stop m)
    (others : Crosses base also rest) (id : TableId) (key : Value) :
    Crosses base (stop.or also) (do rawSet id key (← m); rest) := by
  refine first.bind fun w => .after fun s _ => ?_
  exact ⟨(), _, runOn_rawSet id key w s, .refl _, others⟩

/-- A new table that is filled. -/
theorem Crosses.table {fill : TableId → CrossingM Unit} (fills : ∀ id, Crosses base stop (fill id))
    (table : Table) :
    Crosses base stop
      (do let id ← newTable table; fill id; return .table id : CrossingM Value) :=
  .after fun s _ =>
    ⟨_, _, runOn_newTable table s, .refl _, (fills _).before fun _ => crosses_pure _⟩

theorem crosses_pointer (target : Option ObjectId) :
    Crosses base none (do return .table (← proxyOfPointer target) : CrossingM Value) :=
  crosses_freely fun s _ => ⟨_, _, runOn_pointer target s, .refl _⟩

end

/-! ## Keys, values and structures -/

section

variable {base : Objects} {good : ObjectId → Prop}
  {structs : ObjectId → Option (Stop CrossingError)} {object : ObjectId → CrossingM Value}

theorem textKey_crosses {v : HostValue} (lasts : base.Lasts v) :
    Crosses base (base.textStop v) (do return .text (← textKey v) : CrossingM Value) := by
  refine .before (fun s later => ?_) fun text => crosses_pure _
  have run := runOn_textKey v s
  rw [lasts s.objects later] at run
  rw [Objects.textStop]
  cases found : base.text v with
  | some text =>
    rw [found] at run
    exact ⟨text, s, run, later⟩
  | none =>
    rw [found] at run
    exact ⟨s, run⟩

theorem key_crosses {v : HostValue} (lasts : base.Lasts v) :
    Crosses base (base.keyStop v) (key v) := by
  cases v with
  | nil => exact crosses_fail _
  | bool b => exact crosses_pure _
  | int i => exact crosses_pure _
  | str text => exact crosses_pure _
  | float x =>
    rw [key, Objects.keyStop]
    by_cases isNaN : x.isNaN = true
    · rw [if_pos isNaN, if_pos isNaN]
      exact crosses_fail _
    · rw [if_neg isNaN, if_neg isNaN]
      exact crosses_pure _
  | ptr target =>
    cases target with
    | none => exact crosses_fail _
    | some o => exact textKey_crosses lasts
  | list | map | struct | foreign => exact textKey_crosses lasts

/-- Structures of a kind cross, or stop where it is said. -/
def CrossesStructs (base : Objects) (good : ObjectId → Prop)
    (structs : ObjectId → Option (Stop CrossingError)) (object : ObjectId → CrossingM Value) :
    Prop :=
  ∀ o, good o → Crosses base (structs o) (object o)

mutual

/-- A value crosses, or stops at the first of its checks that does not pass. -/
theorem value_crosses (inner : CrossesStructs base good structs object) :
    ∀ v : HostValue, base.Ready good v.checks →
      Crosses base (base.firstStop structs v.checks) (value object v)
  | .nil, _ | .bool _, _ | .int _, _ | .float _, _ | .str _, _ => crosses_pure _
  | .list items, ready => .table (fun id => putItems_crosses inner id 1 items ready) _
  | .map pairs, ready => .table (fun id => putPairs_crosses inner id pairs ready) _
  | .struct o, ready => by
    rw [HostValue.checks, Objects.firstStop_singleton]
    exact inner o (ready.structs o (List.mem_singleton.2 rfl))
  | .ptr target, _ => crosses_pointer target
  | .foreign kind, _ => crosses_fail _

theorem putItems_crosses (inner : CrossesStructs base good structs object) (id : TableId)
    (index : Nat) : ∀ items : List HostValue, base.Ready good (HostValue.checksOfItems items) →
      Crosses base (base.firstStop structs (HostValue.checksOfItems items))
        (putItems object id index items)
  | [], _ => crosses_pure ()
  | item :: rest, ready => by
    rw [HostValue.checksOfItems] at ready ⊢
    rw [Objects.firstStop_append]
    exact (value_crosses inner item ready.of_append.1).entry
      (putItems_crosses inner id (index + 1) rest ready.of_append.2) id _

theorem putPairs_crosses (inner : CrossesStructs base good structs object) (id : TableId) :
    ∀ pairs : List (HostValue × HostValue), base.Ready good (HostValue.checksOfPairs pairs) →
      Crosses base (base.firstStop structs (HostValue.checksOfPairs pairs))
        (putPairs object id pairs)
  | [], _ => crosses_pure ()
  | (k, item) :: rest, ready => by
    rw [HostValue.checksOfPairs] at ready ⊢
    rw [Objects.firstStop_cons, Objects.firstStop_append]
    exact (key_crosses (ready.keys k List.mem_cons_self)).bind fun final =>
      (value_crosses inner item ready.of_cons.of_append.1).entry
        (putPairs_crosses inner id rest ready.of_cons.of_append.2) id final

end

/-- The copy of a record gets an object of its own, and its public fields are set. -/
theorem crosses_record {stop : Option (Stop CrossingError)} (shape : Shape) (data : List Datum)
    (fills : ∀ id, Crosses base stop (putFields object id shape.fields data)) :
    Crosses base stop (datum object (.record shape data)) := by
  rw [datum]
  refine .after fun s _ => ⟨(s.objects.add { shape, fields := data }).1,
    { s with objects := (s.objects.add { shape, fields := data }).2 }, rfl, .push _ _, ?_⟩
  refine .after fun t _ => ⟨_, _, runOn_newTable _ t, .refl _, ?_⟩
  exact (fills _).before fun _ => crosses_freely fun u _ => ⟨_, _, rfl, .refl u.objects⟩

mutual

/-- A stored value crosses, or stops at the first of its checks that does not pass. -/
theorem datum_crosses (inner : CrossesStructs base good structs object) :
    ∀ d : Datum, base.Ready good d.checks →
      Crosses base (base.firstStop structs d.checks) (datum object d)
  | .bool _, _ | .int _, _ | .size _, _ | .float _, _ | .text _, _ | .absent, _ => crosses_pure _
  | .object o, _ => crosses_pointer (some o)
  | .any v, ready => value_crosses inner v ready
  | .record shape data, ready =>
    crosses_record shape data fun id => putFields_crosses inner id shape.fields data ready
  | .present content, ready => datum_crosses inner content ready
  | .list items, ready => .table (fun id => putData_crosses inner id 1 items ready) _
  | .map entries, ready => .table (fun id => putEntries_crosses inner id entries ready) _

theorem putData_crosses (inner : CrossesStructs base good structs object) (id : TableId)
    (index : Nat) : ∀ items : List Datum, base.Ready good (Datum.checksOfItems items) →
      Crosses base (base.firstStop structs (Datum.checksOfItems items))
        (putData object id index items)
  | [], _ => crosses_pure ()
  | item :: rest, ready => by
    rw [Datum.checksOfItems] at ready ⊢
    rw [Objects.firstStop_append]
    exact (datum_crosses inner item ready.of_append.1).entry
      (putData_crosses inner id (index + 1) rest ready.of_append.2) id _

theorem putEntries_crosses (inner : CrossesStructs base good structs object) (id : TableId) :
    ∀ entries : List (String × Datum), base.Ready good (Datum.checksOfEntries entries) →
      Crosses base (base.firstStop structs (Datum.checksOfEntries entries))
        (putEntries object id entries)
  | [], _ => crosses_pure ()
  | (key, item) :: rest, ready => by
    rw [Datum.checksOfEntries] at ready ⊢
    rw [Objects.firstStop_append]
    exact (datum_crosses inner item ready.of_append.1).entry
      (putEntries_crosses inner id rest ready.of_append.2) id _

theorem putFields_crosses (inner : CrossesStructs base good structs object) (id : TableId) :
    ∀ (declared : List Field) (data : List Datum),
      base.Ready good (Datum.checksOfFields declared data) →
      Crosses base (base.firstStop structs (Datum.checksOfFields declared data))
        (putFields object id declared data)
  | _, [], _ => by
    rw [putFields, Datum.checksOfFields]
    exact crosses_pure ()
  | [], _ :: _, _ => crosses_pure ()
  | field :: declared, item :: rest, ready => by
    rw [putFields]
    rw [Datum.checksOfFields] at ready ⊢
    by_cases isPublic : field.isPublic = true
    swap
    · simp only [if_neg isPublic] at ready ⊢
      exact putFields_crosses inner id declared rest ready
    · simp only [if_pos isPublic] at ready ⊢
      rw [Objects.firstStop_append]
      exact (datum_crosses inner item ready.of_append.1).entry
        (putFields_crosses inner id declared rest ready.of_append.2) id _

end

/-- An object that no writer holds has its fields set, up to the first check that stops. -/
theorem putObject_crosses (inner : CrossesStructs base good structs object) (id : TableId)
    {o : ObjectId} (inside : o.index < base.size)
    (ready : (base.get o).hold ≠ .exclusive → base.Ready good (base.shownChecks o)) :
    Crosses base (base.objectStop structs o) (putObject object id o) := by
  intro s later
  have read := runOn_readable o s
  rw [later.get inside] at read
  rw [putObject, Objects.objectStop]
  by_cases held : (base.get o).hold = .exclusive
  · rw [if_pos held] at read ⊢
    exact ⟨s, runOn_bind_stop read _⟩
  · rw [if_neg held] at read ⊢
    rw [runOn_bind_ok read]
    have shown : base.shownChecks o =
        Datum.checksOfFields (base.get o).shape.fields (base.get o).fields :=
      (Datum.checksOfFields_eq _ _).symm
    rw [shown] at ready ⊢
    exact putFields_crosses inner id _ _ (ready held) s later

/--
Structures of a kind cross with others inside them, at most so deep, if they are objects of the heap
and those inside them are of the same kind.
-/
theorem proxyOfStruct_crosses (inside : ∀ o, good o → o.index < base.size)
    (ready : ∀ o, good o → (base.get o).hold ≠ .exclusive → base.Ready good (base.shownChecks o))
    (depth : Nat) : CrossesStructs base good (base.stopAt depth) (proxyOfStruct depth) := by
  induction depth with
  | zero => exact fun o _ s _ => ⟨s, rfl⟩
  | succ depth ih =>
    intro o isGood
    rw [proxyOfStruct]
    refine .after fun s _ => ⟨_, _, runOn_newTable _ s, .refl _, ?_⟩
    exact (putObject_crosses ih _ (inside o isGood) (ready o isGood)).before fun _ =>
      crosses_freely fun t _ => ⟨_, _, rfl, .refl t.objects⟩

/-- Objects that come meanwhile allow for a greater depth, which may not matter. -/
theorem structure?_crosses (inside : ∀ o, good o → o.index < base.size)
    (ready : ∀ o, good o → (base.get o).hold ≠ .exclusive → base.Ready good (base.shownChecks o))
    (steady : ∀ o, good o → ∀ depth, base.size ≤ depth →
      base.stopAt depth o = base.stopAt base.size o) :
    CrossesStructs base good (base.stopAt base.size) structure? := by
  intro o isGood s later
  rw [structure?, runOn_bind_ok (runOn_get s), ← steady o isGood s.objects.size later.size_le]
  exact proxyOfStruct_crosses inside ready s.objects.size o isGood s later

end

end Crossing

end ScriptHost
