import ScriptHost.Host.Store
import ScriptHost.Proofs.HostRuns

/-!
# Runs of calls on stores

A run is a list of calls of the methods of stores, on any receivers and with any arguments, some of
which may fail.  Its record says what was called and how each call ended.  For every key of every
store the last successful write in the record decides what the store holds under it, and the
revision of a resource counts the successful writes of that resource, into whichever store.  The
proof follows one call from a heap between two calls to the next such heap; the run lemma is an
induction on the list of calls.
-/

namespace ScriptHost

/-! ## Ascending entries as a map -/

namespace Datum

variable {α : Type} {key : String} {item : α} {entries : List (String × α)}

theorem mem_insertEntry {entry : String × α} (among : entry ∈ insertEntry key item entries) :
    entry = (key, item) ∨ entry ∈ entries := by
  induction entries with
  | nil => exact .inl (List.mem_singleton.1 among)
  | cons first rest ih =>
    rw [insertEntry] at among
    split at among
    · rcases List.mem_cons.1 among with here | later
      · exact .inl here
      · exact .inr (List.mem_cons_of_mem _ later)
    · split at among
      · exact List.mem_cons.1 among
      · rcases List.mem_cons.1 among with here | later
        · exact .inr (here ▸ List.mem_cons_self)
        · exact (ih later).imp_right (List.mem_cons_of_mem _)

/-- An entry that is put among ascending ones finds its place, or that of its predecessor. -/
theorem pairwise_insertEntry (ascending : entries.Pairwise fun a b => a.1 < b.1) :
    (insertEntry key item entries).Pairwise fun a b => a.1 < b.1 := by
  induction entries with
  | nil => exact List.pairwise_singleton _ _
  | cons first rest ih =>
    obtain ⟨least, others⟩ := List.pairwise_cons.1 ascending
    rw [insertEntry]
    split
    · next same => exact .cons (fun entry among => same ▸ least entry among) others
    · next different =>
      split
      · next before =>
        refine .cons (fun entry among => ?_) ascending
        rcases List.mem_cons.1 among with rfl | later
        · exact before
        · exact String.lt_trans before (least entry later)
      · next notBefore =>
        refine .cons (fun entry among => ?_) (ih others)
        rcases mem_insertEntry among with rfl | later
        · exact Decidable.byContradiction fun notAfter =>
            different (String.le_antisymm notAfter notBefore)
        · exact least entry later

theorem lookup_entry (key other : String) (item : α) (rest : List (String × α)) :
    ((key, item) :: rest).lookup other = if other = key then some item else rest.lookup other := by
  rw [List.lookup_cons]
  by_cases here : other = key
  · rw [if_pos here, here, beq_self_eq_true]
  · rw [if_neg here, beq_false_of_ne here]

theorem lookup_insertEntry (key other : String) (item : α) (entries : List (String × α)) :
    (insertEntry key item entries).lookup other =
      if other = key then some item else entries.lookup other := by
  induction entries with
  | nil => rw [insertEntry, lookup_entry]
  | cons first rest ih =>
    obtain ⟨name, old⟩ := first
    rw [insertEntry, lookup_entry name]
    split
    · next same =>
      rw [lookup_entry, same]
      by_cases here : other = name
      · rw [if_pos here, if_pos here]
      · rw [if_neg here, if_neg here, if_neg here]
    · next different =>
      split
      · rw [lookup_entry, lookup_entry]
      · rw [lookup_entry, ih]
        by_cases here : other = name
        · rw [if_pos here, if_pos here, if_neg (here ▸ Ne.symm different)]
        · rw [if_neg here, if_neg here]

theorem lookup_erase (key other : String) (entries : List (String × α)) :
    (entries.filter (·.1 ≠ key)).lookup other =
      if other = key then none else entries.lookup other := by
  induction entries with
  | nil => simp only [List.filter_nil, List.lookup_nil, ite_self]
  | cons first rest ih =>
    obtain ⟨name, old⟩ := first
    rw [lookup_entry name]
    by_cases gone : name = key
    · rw [List.filter_cons_of_neg (by simpa using gone), ih, gone]
      by_cases here : other = key
      · rw [if_pos here, if_pos here]
      · rw [if_neg here, if_neg here, if_neg here]
    · rw [List.filter_cons_of_pos (by simpa using gone), lookup_entry, ih]
      by_cases here : other = name
      · rw [if_pos here, if_pos here, if_neg (here ▸ gone)]
      · rw [if_neg here, if_neg here]

theorem mem_keys_iff (key : String) (entries : List (String × α)) :
    key ∈ entries.map (·.1) ↔ (entries.lookup key).isSome := by
  induction entries with
  | nil => simp
  | cons first rest ih =>
    rw [List.map_cons, List.mem_cons, ih, lookup_entry]
    by_cases here : key = first.1
    · simp [here]
    · simp [here]

end Datum

namespace Store

/-! ## Calls and their record -/

/-- The methods of stores. -/
inductive Op where
  | get
  | put
  | delete
  | keys
  | len
deriving DecidableEq

def Op.method : Op → HostMethod
  | .get => Store.get
  | .put => Store.put
  | .delete => Store.delete
  | .keys => keysMethod
  | .len => Store.len

/-- The methods that take a key as their first argument. -/
def Op.keyed : Op → Bool
  | .get | .put | .delete => true
  | .keys | .len => false

structure Call where
  op : Op
  receiver : ObjectId
  args : List HostValue

namespace Call

def run (c : Call) : HostM (List HostValue) := c.op.method.call c.receiver c.args

/-- The first argument, if it is a text. -/
def key? (c : Call) : Option String := c.args[0]?.bind HostValue.text?

/-- The second argument; a missing one stands for nothing. -/
def value (c : Call) : HostValue := c.args[1]?.getD .nil

end Call

structure Event where
  call : Call
  outcome : Except (Stop HostError) (List HostValue)

namespace Event

/-- The call ended well. -/
def Succeeded (e : Event) : Prop := e.outcome.isOk = true

/-- A successful call that put a value under a key of a store, or deleted the key. -/
def Writes (store : ObjectId) (key : String) (e : Event) : Prop :=
  e.Succeeded ∧ e.call.receiver = store ∧ e.call.key? = some key ∧
    (e.call.op = .put ∨ e.call.op = .delete)

/-- What a write leaves under its key. -/
def left (e : Event) : Option HostValue := if e.call.op = .put then some e.call.value else none

/-- A successful call that put an object into a store. -/
def Puts (object : ObjectId) (e : Event) : Prop :=
  e.Succeeded ∧ e.call.op = .put ∧ e.call.value.object? = some object

instance (e : Event) : Decidable e.Succeeded := inferInstanceAs (Decidable (_ = _))

instance (store : ObjectId) (key : String) (e : Event) : Decidable (e.Writes store key) :=
  inferInstanceAs (Decidable (_ ∧ _ ∧ _ ∧ (_ ∨ _)))

instance (object : ObjectId) (e : Event) : Decidable (e.Puts object) :=
  inferInstanceAs (Decidable (_ ∧ _ ∧ _))

end Event

/-- The record of a run, and the heap after it. -/
def runAll : List Call → Objects → List Event × Objects
  | [], objects => ([], objects)
  | c :: rest, objects =>
    (⟨c, (c.run.runOn objects).1⟩ :: (runAll rest (c.run.runOn objects).2).1,
      (runAll rest (c.run.runOn objects).2).2)

/-- What is under a key of a store after a run, if `first` was before: the last write decides. -/
def remaining (log : List Event) (store : ObjectId) (key : String) (first : Option HostValue) :
    Option HostValue :=
  match (log.filter (·.Writes store key)).getLast? with
  | some e => e.left
  | none => first

/-- How many times a run put an object into a store. -/
def timesPut (log : List Event) (object : ObjectId) : Nat := log.countP (·.Puts object)

/-- What a finite map answers to a method, given the arguments. -/
inductive Answers (content : String → Option HostValue) (c : Call) : List HostValue → Prop where
  | get {key : String} (op : c.op = .get) (named : c.key? = some key) :
      Answers content c [(content key).getD .nil]
  | put {key : String} (op : c.op = .put) (named : c.key? = some key) : Answers content c []
  | delete {key : String} (op : c.op = .delete) (named : c.key? = some key) :
      Answers content c [.bool (content key).isSome]
  | keys {present : List String} (op : c.op = .keys) (ascending : present.Pairwise (· < ·))
      (all : ∀ key, key ∈ present ↔ (content key).isSome) :
      Answers content c [.list (present.map .str)]
  | len {present : List String} (op : c.op = .len) (ascending : present.Pairwise (· < ·))
      (all : ∀ key, key ∈ present ↔ (content key).isSome) :
      Answers content c [.int (.ofNat present.length)]

end Store

/-! ## Heaps between two calls -/

/-- Nobody holds the object, and it is laid out as a store or a resource if it is one. -/
structure Instance.Orderly (i : Instance) : Prop where
  free : i.hold = .free
  store : i.shape.Is Store.shape → Store.layout.fields (Store.layout.ofFields i.fields) = i.fields
  ascending : i.shape.Is Store.shape → (Store.layout.ofFields i.fields).keys.Pairwise (· < ·)
  resource : i.shape.Is Resource.shape →
    Resource.layout.fields (Resource.layout.ofFields i.fields) = i.fields

/-- A resource one revision further. -/
def Resource.next (r : Resource) : Resource := { r with revision := r.revision + 1 }

namespace Objects

def IsStore (objects : Objects) (id : ObjectId) : Prop := (objects.get id).shape.Is Store.shape

def IsResource (objects : Objects) (id : ObjectId) : Prop :=
  (objects.get id).shape.Is Resource.shape

instance (objects : Objects) (id : ObjectId) : Decidable (objects.IsResource id) :=
  inferInstanceAs (Decidable (Shape.Is _ _))

def storeAt (objects : Objects) (id : ObjectId) : Store := Store.layout.readAt objects id

def resourceAt (objects : Objects) (id : ObjectId) : Resource := Resource.layout.readAt objects id

/-- Between two calls nobody holds an object, and stores and resources are laid out as such. -/
def Orderly (objects : Objects) : Prop := ∀ id, (objects.get id).Orderly

/-- The heap in which a value is, if it is a resource, one revision further. -/
def advanced (objects : Objects) (v : HostValue) : Objects :=
  match v.object? with
  | some id =>
    if objects.IsResource id then
      objects.put id (Resource.layout.fields (objects.resourceAt id).next)
    else objects
  | none => objects

/-- What is no resource stays as it is when a resource advances. -/
theorem get_advanced {objects : Objects} {id : ObjectId} (other : ¬ objects.IsResource id)
    (v : HostValue) : (objects.advanced v).get id = objects.get id := by
  unfold advanced
  split
  · next resource _ =>
    split
    · next is => exact get_put_of_ne _ fun same => other (same ▸ is)
    · rfl
  · rfl

end Objects

/-! ## One call -/

namespace Store

@[simp]
theorem ofFields_fields (s : Store) : layout.ofFields (layout.fields s) = s := by
  have entries : (s.entries.map fun entry => (entry.1, Datum.any entry.2)).map
      (fun entry => (entry.1, valueOf entry.2)) = s.entries := by
    rw [List.map_map]
    exact List.map_id _
  exact congrArg (fun entries => { s with entries }) entries

end Store

namespace Resource

@[simp]
theorem ofFields_fields (r : Resource) : layout.ofFields (layout.fields r) = r := by
  have labels : (r.labels.map fun entry => (entry.1, Datum.text entry.2)).map
      (fun entry => (entry.1, textOf entry.2)) = r.labels := by
    rw [List.map_map]
    exact List.map_id _
  exact congrArg (fun labels => { r with labels }) labels

end Resource

/-- A store is no resource. -/
theorem Shape.Is.store_ne_resource {shape : Shape} (store : shape.Is Store.shape) :
    ¬ shape.Is Resource.shape := by
  intro resource
  have same : Store.shape.name = Resource.shape.name := store.2.symm.trans resource.2
  exact absurd same (by decide)

namespace Instance.Orderly

variable {i : Instance}

theorem other (free : i.hold = .free) (store : ¬ i.shape.Is Store.shape)
    (resource : ¬ i.shape.Is Resource.shape) : i.Orderly where
  free
  store is := absurd is store
  ascending is := absurd is store
  resource is := absurd is resource

theorem ofStore (free : i.hold = .free) (is : i.shape.Is Store.shape) {s : Store}
    (ascending : s.keys.Pairwise (· < ·)) :
    ({ i with fields := Store.layout.fields s } : Instance).Orderly where
  free
  store _ := by rw [Store.ofFields_fields]
  ascending _ := by
    rw [Store.ofFields_fields]
    exact ascending
  resource also := absurd also is.store_ne_resource

theorem ofResource (free : i.hold = .free) (is : i.shape.Is Resource.shape) {r : Resource} :
    ({ i with fields := Resource.layout.fields r } : Instance).Orderly where
  free
  store also := absurd is also.store_ne_resource
  ascending also := absurd is also.store_ne_resource
  resource _ := by rw [Resource.ofFields_fields]

theorem newStore {s : Store} (ascending : s.keys.Pairwise (· < ·)) :
    ({ shape := Store.shape, fields := Store.layout.fields s } : Instance).Orderly :=
  ofStore (i := ⟨Store.shape, [], .free⟩) rfl ⟨rfl, rfl⟩ ascending

theorem newResource (r : Resource) :
    ({ shape := Resource.shape, fields := Resource.layout.fields r } : Instance).Orderly :=
  ofResource (i := ⟨Resource.shape, [], .free⟩) rfl ⟨rfl, rfl⟩

end Instance.Orderly

namespace Store.Call

open HostM Layout

variable {c : Call} {objects : Objects} {key : String}

theorem args_of_key (named : c.key? = some key) : c.args[0]? = some (.str key) := by
  rw [key?] at named
  cases found : c.args[0]? with
  | none =>
    rw [found] at named
    cases named
  | some v =>
    rw [found] at named
    cases v with
    | str text =>
      cases named
      rfl
    | _ => cases named

section

variable (orderly : objects.Orderly) (is : objects.IsStore c.receiver)

include orderly is

/-- A method that reads its store answers from it and changes nothing. -/
theorem runOn_reading {body : Store → HostM (List HostValue × Store)} {results : List HostValue}
    (inner : (body (objects.storeAt c.receiver)).runOn (objects.setHold c.receiver .exclusive) =
      (.ok (results, objects.storeAt c.receiver), objects.setHold c.receiver .exclusive)) :
    (layout.onReceiver c.receiver body).runOn objects = (.ok results, objects) := by
  have laid : layout.fields (objects.storeAt c.receiver) = (objects.get c.receiver).fields :=
    (orderly _).store is
  rw [runOn_onReceiver_ok layout (orderly _).free is inner rfl, laid, Objects.put_fields]

theorem runOn_get (op : c.op = .get) (named : c.key? = some key) :
    c.run.runOn objects = (.ok [((objects.storeAt c.receiver).get? key).getD .nil], objects) := by
  simp only [run, op, Op.method, Store.get, Layout.method]
  refine runOn_reading orderly is ?_
  rw [runOn_bind_ok (runOn_textArg (args_of_key named) _), runOn_pure]

theorem runOn_keys (op : c.op = .keys) :
    c.run.runOn objects = (.ok [.list ((objects.storeAt c.receiver).keys.map .str)], objects) := by
  simp only [run, op, Op.method, keysMethod, Layout.method]
  exact runOn_reading orderly is (runOn_pure _ _)

theorem runOn_len (op : c.op = .len) :
    c.run.runOn objects = (.ok [.int (.ofNat (objects.storeAt c.receiver).size)], objects) := by
  simp only [run, op, Op.method, Store.len, Layout.method]
  exact runOn_reading orderly is (runOn_pure _ _)

theorem runOn_delete (op : c.op = .delete) (named : c.key? = some key) :
    c.run.runOn objects =
      (.ok [.bool ((objects.storeAt c.receiver).get? key).isSome],
        objects.put c.receiver (layout.fields ((objects.storeAt c.receiver).erase key))) := by
  simp only [run, op, Op.method, Store.delete, Layout.method]
  refine runOn_onReceiver_ok layout (orderly _).free is ?_ rfl
  rw [runOn_bind_ok (runOn_textArg (args_of_key named) _), runOn_pure]
  rfl

/-- A resource that is put advances while the store is held; the store itself is no resource. -/
theorem runOn_advance {id : ObjectId} (resource : objects.IsResource id) :
    (Resource.advance id).runOn (objects.setHold c.receiver .exclusive) =
      (.ok (), (objects.put id (Resource.layout.fields (objects.resourceAt id).next)).setHold
        c.receiver .exclusive) := by
  have apart : id ≠ c.receiver := fun same => is.store_ne_resource (same ▸ resource)
  have there : (objects.setHold c.receiver .exclusive).get id = objects.get id :=
    Objects.get_setHold_of_ne _ apart
  have read : Resource.layout.readAt (objects.setHold c.receiver .exclusive) id =
      objects.resourceAt id :=
    congrArg (fun i : Instance => Resource.layout.ofFields i.fields) there
  rw [Resource.advance, runOn_onReceiver_ok Resource.layout (by rw [there]; exact (orderly id).free)
    (by rw [there]; exact resource) (runOn_pure _ _) rfl, read, Objects.put_setHold apart]
  rfl

theorem runOn_put (op : c.op = .put) (named : c.key? = some key) :
    c.run.runOn objects =
      (.ok [], (objects.advanced c.value).put c.receiver
        (layout.fields ((objects.storeAt c.receiver).insert key c.value))) := by
  have start := runOn_textArg (args_of_key named) (objects.setHold c.receiver .exclusive)
  simp only [run, op, Op.method, Store.put, Layout.method]
  refine runOn_onReceiver_ok layout (orderly _).free is ?_
    (Objects.get_advanced is.store_ne_resource _)
  rw [runOn_bind_ok start, Objects.advanced]
  change HostM.runOn (match c.value.object? with | some _ => _ | none => _) _ = _
  cases refers : c.value.object? with
  | none => exact runOn_pure _ _
  | some id =>
    by_cases resource : objects.IsResource id
    · have there : ((objects.setHold c.receiver .exclusive).get id).shape.Is Resource.shape := by
        rw [Objects.shape_setHold]
        exact resource
      dsimp only
      rw [runOn_bind_ok (runOn_instanceOf _ _), if_pos there,
        runOn_bind_ok (runOn_advance orderly is resource), if_pos resource]
      exact runOn_pure _ _
    · have there : ¬ ((objects.setHold c.receiver .exclusive).get id).shape.Is Resource.shape := by
        rw [Objects.shape_setHold]
        exact resource
      dsimp only
      rw [runOn_bind_ok (runOn_instanceOf _ _), if_neg there, if_neg resource]
      exact runOn_pure _ _

end

/-- The receiver is a store, and the key that the method needs is a text. -/
def Accepted (c : Call) (objects : Objects) : Prop :=
  objects.IsStore c.receiver ∧ (c.op.keyed = true → c.key?.isSome = true)

theorem run_eq_onReceiver (c : Call) :
    ∃ body, c.run = layout.onReceiver c.receiver body := by
  obtain ⟨op, receiver, args⟩ := c
  cases op
  all_goals
    simp only [run, Op.method, Store.get, Store.put, Store.delete, keysMethod, Store.len,
      Layout.method]
    exact ⟨_, rfl⟩

theorem run_eq_of_keyed (keyed : c.op.keyed = true) :
    ∃ rest : Store → String → HostM (List HostValue × Store),
      c.run = layout.onReceiver c.receiver fun s => textArg c.args 0 >>= rest s := by
  obtain ⟨op, receiver, args⟩ := c
  cases op with
  | keys | len => cases keyed
  | _ =>
    simp only [run, Op.method, Store.get, Store.put, Store.delete, Layout.method]
    exact ⟨_, rfl⟩

/-- A call that is not accepted fails without a trace. -/
theorem runOn_refused (orderly : objects.Orderly) (refused : ¬ c.Accepted objects) :
    ∃ e, c.run.runOn objects = (.error (.error e), objects) := by
  by_cases is : objects.IsStore c.receiver
  · have keyed : c.op.keyed = true := by
      by_contra free
      exact refused ⟨is, fun keyed => absurd keyed free⟩
    have missing : c.key? = none := by
      cases key : c.key? with
      | none => rfl
      | some text => exact absurd ⟨is, fun _ => by rw [key, Option.isSome_some]⟩ refused
    obtain ⟨rest, shape⟩ := run_eq_of_keyed keyed
    obtain ⟨e, fails⟩ := runOn_textArg_refused missing (objects.setHold c.receiver .exclusive)
    refine ⟨e, ?_⟩
    rw [shape]
    exact runOn_onReceiver_stop layout (orderly _).free is (runOn_bind_stop fails _)
  · obtain ⟨body, shape⟩ := run_eq_onReceiver c
    rw [shape]
    exact runOn_onReceiver_refused layout body is

end Store.Call

/-! ## What a call leaves of stores and resources -/

namespace Objects

variable {objects : Objects} {id : ObjectId}

theorem IsStore.inside (is : objects.IsStore id) : id.index < objects.size :=
  Store.layout.inside_of_is (by decide) is

theorem IsResource.inside (is : objects.IsResource id) : id.index < objects.size :=
  Resource.layout.inside_of_is (by decide) is

theorem storeAt_put_self (is : objects.IsStore id) (s : Store) :
    (objects.put id (Store.layout.fields s)).storeAt id = s := by
  rw [storeAt, Layout.readAt, get_put_self _ is.inside, Store.ofFields_fields]

theorem resourceAt_put_self (is : objects.IsResource id) (r : Resource) :
    (objects.put id (Resource.layout.fields r)).resourceAt id = r := by
  rw [resourceAt, Layout.readAt, get_put_self _ is.inside, Resource.ofFields_fields]

theorem storeAt_put_of_ne {other : ObjectId} (apart : other ≠ id) (fields : List Datum) :
    (objects.put id fields).storeAt other = objects.storeAt other :=
  congrArg (fun i : Instance => Store.layout.ofFields i.fields) (get_put_of_ne fields apart)

theorem resourceAt_put_of_ne {other : ObjectId} (apart : other ≠ id) (fields : List Datum) :
    (objects.put id fields).resourceAt other = objects.resourceAt other :=
  congrArg (fun i : Instance => Resource.layout.ofFields i.fields) (get_put_of_ne fields apart)

namespace Orderly

theorem empty : Orderly {} := by
  intro id
  rw [get_of_le (Nat.zero_le _)]
  exact .other rfl (by decide) (by decide)

theorem add (orderly : objects.Orderly) {i : Instance} (new : i.Orderly) :
    (objects.add i).2.Orderly := by
  intro id
  rcases get_add objects i id with same | same
  · rw [same]
    exact new
  · rw [same]
    exact orderly id

theorem put (orderly : objects.Orderly) {fields : List Datum}
    (new : ({ objects.get id with fields } : Instance).Orderly) :
    (objects.put id fields).Orderly := by
  intro other
  rcases get_put objects id other fields with same | same
  · rw [same]
    exact new
  · rw [same]
    exact orderly other

theorem advanced (orderly : objects.Orderly) (v : HostValue) : (objects.advanced v).Orderly := by
  unfold Objects.advanced
  split
  · split
    · next is => exact orderly.put (.ofResource (orderly _).free is)
    · exact orderly
  · exact orderly

end Orderly

@[simp]
theorem shape_advanced (objects : Objects) (v : HostValue) (id : ObjectId) :
    ((objects.advanced v).get id).shape = (objects.get id).shape := by
  unfold advanced
  split
  · split
    · exact shape_put _ _ _ _
    · rfl
  · rfl

theorem storeAt_advanced (is : objects.IsStore id) (v : HostValue) :
    (objects.advanced v).storeAt id = objects.storeAt id := by
  rw [storeAt, Layout.readAt, get_advanced is.store_ne_resource, storeAt, Layout.readAt]

theorem resourceAt_advanced (is : objects.IsResource id) (v : HostValue) :
    (objects.advanced v).resourceAt id =
      if v.object? = some id then (objects.resourceAt id).next else objects.resourceAt id := by
  rw [advanced]
  cases refers : v.object? with
  | none => rw [if_neg nofun]
  | some other =>
    by_cases same : other = id
    · subst same
      rw [if_pos rfl]
      dsimp only
      rw [if_pos is, resourceAt_put_self is]
    · have apart : id ≠ other := fun equal => same equal.symm
      rw [if_neg fun equal => same (Option.some.inj equal)]
      dsimp only
      split
      · exact resourceAt_put_of_ne apart _
      · rfl

end Objects

/-! ## Runs -/

namespace Store

open HostM

variable {a b d objects : Objects} {e : Event} {id : ObjectId} {key : String}

theorem remaining_single (e : Event) (id : ObjectId) (key : String) (first : Option HostValue) :
    remaining [e] id key first = if e.Writes id key then e.left else first := by
  rw [remaining]
  by_cases writes : e.Writes id key
  · rw [List.filter_cons_of_pos (by simpa using writes), if_pos writes]
    rfl
  · rw [List.filter_cons_of_neg (by simpa using writes), if_neg writes]
    rfl

theorem remaining_append (log later : List Event) (id : ObjectId) (key : String)
    (first : Option HostValue) :
    remaining (log ++ later) id key first =
      remaining later id key (remaining log id key first) := by
  simp only [remaining, List.filter_append, List.getLast?_append]
  cases (later.filter (·.Writes id key)).getLast? <;> rfl

/--
The heap after some events in terms of the heap before: objects keep their types, stores hold what
the events left in them, and the revisions of resources count how often they were put.
-/
structure Accounts (before : Objects) (log : List Event) (after : Objects) : Prop where
  orderly : after.Orderly
  shape : ∀ id, (after.get id).shape = (before.get id).shape
  content : ∀ id key, before.IsStore id →
    (after.storeAt id).get? key = remaining log id key ((before.storeAt id).get? key)
  revision : ∀ id, before.IsResource id →
    (after.resourceAt id).revision =
      (before.resourceAt id).revision + .ofNat (timesPut log id)

namespace Accounts

theorem isStore {log : List Event} (accounts : Accounts a log b) :
    b.IsStore id ↔ a.IsStore id := by
  rw [Objects.IsStore, accounts.shape, Objects.IsStore]

theorem isResource {log : List Event} (accounts : Accounts a log b) :
    b.IsResource id ↔ a.IsResource id := by
  rw [Objects.IsResource, accounts.shape, Objects.IsResource]

theorem nil (orderly : a.Orderly) : Accounts a [] a where
  orderly
  shape _ := rfl
  content _ _ _ := rfl
  revision _ _ := by
    rw [timesPut, List.countP_nil]
    exact (UInt64.add_zero _).symm

theorem append {log later : List Event} (first : Accounts a log b) (second : Accounts b later d) :
    Accounts a (log ++ later) d where
  orderly := second.orderly
  shape id := (second.shape id).trans (first.shape id)
  content id key is := by
    rw [second.content id key (first.isStore.2 is), first.content id key is, remaining_append]
  revision id is := by
    rw [second.revision id (first.isResource.2 is), first.revision id is, timesPut, timesPut,
      timesPut, List.countP_append, UInt64.ofNat_add, UInt64.add_assoc]

/-- An event that writes nothing leaves the heap as it was. -/
theorem still (orderly : a.Orderly)
    (silent : ¬ (e.Succeeded ∧ (e.call.op = .put ∨ e.call.op = .delete))) :
    Accounts a [e] a where
  orderly
  shape _ := rfl
  content id key _ := by
    rw [remaining_single, if_neg fun writes => silent ⟨writes.1, writes.2.2.2⟩]
  revision id _ := by
    have never : ¬ e.Puts id := fun puts => silent ⟨puts.1, .inl puts.2.1⟩
    rw [timesPut, List.countP_singleton, if_neg (by simpa using never)]
    exact (UInt64.add_zero _).symm

end Accounts

namespace Call

variable {c : Call}

theorem exists_key (accepted : c.Accepted objects) (keyed : c.op.keyed = true) :
    ∃ key, c.key? = some key :=
  Option.isSome_iff_exists.1 (accepted.2 keyed)

/-- An accepted call is answered from the map that its store is. -/
theorem answers (orderly : objects.Orderly) (accepted : c.Accepted objects) :
    ∃ results, (c.run.runOn objects).1 = .ok results ∧
      Answers (objects.storeAt c.receiver).get? c results := by
  have ascending := (orderly _).ascending accepted.1
  have all := fun key => Datum.mem_keys_iff key (objects.storeAt c.receiver).entries
  cases op : c.op with
  | get =>
    obtain ⟨key, named⟩ := exists_key accepted (by rw [op]; rfl)
    exact ⟨_, congrArg Prod.fst (runOn_get orderly accepted.1 op named), .get op named⟩
  | put =>
    obtain ⟨key, named⟩ := exists_key accepted (by rw [op]; rfl)
    exact ⟨_, congrArg Prod.fst (runOn_put orderly accepted.1 op named), .put op named⟩
  | delete =>
    obtain ⟨key, named⟩ := exists_key accepted (by rw [op]; rfl)
    exact ⟨_, congrArg Prod.fst (runOn_delete orderly accepted.1 op named), .delete op named⟩
  | keys =>
    exact ⟨_, congrArg Prod.fst (runOn_keys orderly accepted.1 op), .keys op ascending all⟩
  | len =>
    refine ⟨_, congrArg Prod.fst (runOn_len orderly accepted.1 op), ?_⟩
    rw [show (objects.storeAt c.receiver).size = (objects.storeAt c.receiver).keys.length from
      (List.length_map _).symm]
    exact .len op ascending all

theorem accounts_delete (orderly : objects.Orderly) (is : objects.IsStore c.receiver)
    (op : c.op = .delete) (named : c.key? = some key) :
    Accounts objects [⟨c, (c.run.runOn objects).1⟩] (c.run.runOn objects).2 := by
  rw [runOn_delete orderly is op named]
  have ascending : ((objects.storeAt c.receiver).erase key).keys.Pairwise (· < ·) :=
    ((orderly _).ascending is).sublist (List.filter_sublist.map _)
  refine ⟨orderly.put (.ofStore (orderly _).free is ascending),
    fun _ => Objects.shape_put _ _ _ _, ?_, ?_⟩
  · intro id other _
    rw [remaining_single]
    by_cases here : id = c.receiver
    · subst here
      rw [Objects.storeAt_put_self is]
      refine (Datum.lookup_erase key other _).trans ?_
      by_cases same : other = key
      · subst same
        rw [if_pos rfl, if_pos ⟨rfl, rfl, named, .inr op⟩, Event.left, if_neg (by rw [op]; nofun)]
      · rw [if_neg same,
          if_neg fun writes => same (Option.some.inj (writes.2.2.1.symm.trans named))]
        rfl
    · rw [Objects.storeAt_put_of_ne here, if_neg fun writes => here writes.2.1.symm]
  · intro id resource
    have apart : id ≠ c.receiver := fun same => is.store_ne_resource (same ▸ resource)
    have never : ¬ Event.Puts id ⟨c, .ok [.bool ((objects.storeAt c.receiver).get? key).isSome]⟩ :=
      fun puts => absurd (op.symm.trans puts.2.1) nofun
    rw [Objects.resourceAt_put_of_ne apart, timesPut, List.countP_singleton,
      if_neg (by simpa using never)]
    exact (UInt64.add_zero _).symm

theorem accounts_put (orderly : objects.Orderly) (is : objects.IsStore c.receiver)
    (op : c.op = .put) (named : c.key? = some key) :
    Accounts objects [⟨c, (c.run.runOn objects).1⟩] (c.run.runOn objects).2 := by
  rw [runOn_put orderly is op named]
  have still : (objects.advanced c.value).IsStore c.receiver := by
    rw [Objects.IsStore, Objects.shape_advanced]
    exact is
  have ascending : ((objects.storeAt c.receiver).insert key c.value).keys.Pairwise (· < ·) :=
    List.pairwise_map.2
      (Datum.pairwise_insertEntry (List.pairwise_map.1 ((orderly _).ascending is)))
  refine ⟨(orderly.advanced _).put (.ofStore (orderly.advanced _ _).free still ascending),
    fun id => ?_, ?_, ?_⟩
  · rw [Objects.shape_put, Objects.shape_advanced]
  · intro id other also
    rw [remaining_single]
    by_cases here : id = c.receiver
    · subst here
      rw [Objects.storeAt_put_self still]
      refine (Datum.lookup_insertEntry key other _ _).trans ?_
      by_cases same : other = key
      · subst same
        rw [if_pos rfl, if_pos ⟨rfl, rfl, named, .inl op⟩, Event.left, if_pos op]
      · rw [if_neg same,
          if_neg fun writes => same (Option.some.inj (writes.2.2.1.symm.trans named))]
        rfl
    · rw [Objects.storeAt_put_of_ne here, Objects.storeAt_advanced also,
        if_neg fun writes => here writes.2.1.symm]
  · intro id resource
    have apart : id ≠ c.receiver := fun same => is.store_ne_resource (same ▸ resource)
    rw [Objects.resourceAt_put_of_ne apart, Objects.resourceAt_advanced resource, timesPut,
      List.countP_singleton]
    by_cases put : c.value.object? = some id
    · rw [if_pos put, if_pos (decide_eq_true ⟨rfl, op, put⟩)]
      rfl
    · rw [if_neg put, if_neg fun puts => put (of_decide_eq_true puts).2.2]
      exact (UInt64.add_zero _).symm

/-- One call, whether it ends well or fails. -/
theorem accounts (orderly : objects.Orderly) (c : Call) :
    Accounts objects [⟨c, (c.run.runOn objects).1⟩] (c.run.runOn objects).2 := by
  by_cases accepted : c.Accepted objects
  · cases op : c.op with
    | get =>
      obtain ⟨key, named⟩ := exists_key accepted (by rw [op]; rfl)
      rw [runOn_get orderly accepted.1 op named]
      exact .still orderly fun writes => by simp [op] at writes
    | put =>
      obtain ⟨key, named⟩ := exists_key accepted (by rw [op]; rfl)
      exact accounts_put orderly accepted.1 op named
    | delete =>
      obtain ⟨key, named⟩ := exists_key accepted (by rw [op]; rfl)
      exact accounts_delete orderly accepted.1 op named
    | keys =>
      rw [runOn_keys orderly accepted.1 op]
      exact .still orderly fun writes => by simp [op] at writes
    | len =>
      rw [runOn_len orderly accepted.1 op]
      exact .still orderly fun writes => by simp [op] at writes
  · obtain ⟨e, fails⟩ := runOn_refused orderly accepted
    rw [fails]
    exact .still orderly fun writes => absurd writes.1 nofun

end Call

theorem runAll_accounts (orderly : objects.Orderly) (calls : List Call) :
    Accounts objects (runAll calls objects).1 (runAll calls objects).2 := by
  induction calls generalizing objects with
  | nil => exact .nil orderly
  | cons c rest ih =>
    have first := Call.accounts orderly c
    exact first.append (ih first.orderly)

/--
After any run of calls, some of which may have failed, a store is the finite map that the last
successful writes of the run made of it, and answers the next call as such.  The next call fails
only for want of a store or of a text as the key, and then changes nothing.  The revision of a
resource has grown by the number of successful writes of it, into whichever store.
-/
theorem runAll_refines (orderly : objects.Orderly) (calls : List Call) (c : Call) :
    let log := (runAll calls objects).1
    let after := (runAll calls objects).2
    let content := fun key => remaining log c.receiver key ((objects.storeAt c.receiver).get? key)
    (c.Accepted objects →
        ∃ results, (c.run.runOn after).1 = .ok results ∧ Answers content c results) ∧
      (¬ c.Accepted objects → ∃ e, c.run.runOn after = (.error (.error e), after)) ∧
      ∀ id, objects.IsResource id →
        (objects.resourceAt id).revision.toNat + timesPut log id < 2 ^ 64 →
          (after.resourceAt id).revision.toNat =
            (objects.resourceAt id).revision.toNat + timesPut log id := by
  intro log after content
  have accounts : Accounts objects log after := runAll_accounts orderly calls
  have accepted : c.Accepted after ↔ c.Accepted objects := by
    rw [Call.Accepted, accounts.isStore, Call.Accepted]
  refine ⟨fun acceptable => ?_, fun refused => ?_, fun id resource bound => ?_⟩
  · have same : (after.storeAt c.receiver).get? = content :=
      funext fun key => accounts.content _ key acceptable.1
    rw [← same]
    exact Call.answers accounts.orderly (accepted.2 acceptable)
  · exact Call.runOn_refused accounts.orderly fun also => refused (accepted.1 also)
  · rw [accounts.revision id resource, UInt64.toNat_add, UInt64.toNat_ofNat',
      Nat.add_mod_mod, Nat.mod_eq_of_lt bound]

/-- Two empty stores and a resource. -/
def shelves : Objects :=
  ((((({} : Objects).add { shape, fields := layout.fields {} }).2.add
    { shape, fields := layout.fields {} }).2.add
      { shape := Resource.shape, fields := Resource.layout.fields (.named "gear" "cog") })).2

/-- The resource goes into both stores, one store into itself, and a key that is no text fails. -/
def shelving : List Call := [
  ⟨.put, ⟨0⟩, [.str "cog", .ptr (some ⟨2⟩)]⟩,
  ⟨.put, ⟨0⟩, [.int 1, .ptr (some ⟨2⟩)]⟩,
  ⟨.put, ⟨1⟩, [.str "cog", .struct ⟨2⟩]⟩,
  ⟨.delete, ⟨1⟩, [.str "cog"]⟩,
  ⟨.put, ⟨0⟩, [.str "self", .ptr (some ⟨0⟩)]⟩]

theorem runAll_refines_shelves :
    (Call.run ⟨.get, ⟨0⟩, [.str "self"]⟩ |>.runOn (runAll shelving shelves).2).1 =
        .ok [.ptr (some ⟨0⟩)] ∧
      ((runAll shelving shelves).2.resourceAt ⟨2⟩).revision.toNat = 2 := by
  have orderly : shelves.Orderly := 
    ((Objects.Orderly.empty.add (.newStore .nil)).add (.newStore .nil)).add (.newResource _)
  obtain ⟨accepted, _, counted⟩ :=
    runAll_refines orderly shelving ⟨.get, ⟨0⟩, [.str "self"]⟩
  constructor
  · obtain ⟨results, outcome, answers⟩ := accepted ⟨⟨rfl, rfl⟩, fun _ => rfl⟩
    rw [outcome]
    cases answers with
    | get op named =>
      cases named
      rfl
    | put op | delete op | keys op | len op => cases op
  · exact counted ⟨2⟩ ⟨rfl, rfl⟩ (by decide)

end Store

end ScriptHost
