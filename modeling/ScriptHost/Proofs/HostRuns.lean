import ScriptHost.Proofs.ProxyRuns
import ScriptHost.Host.Class

/-!
# Runs of the host on its objects

A computation of the host is a function on heaps of objects: it ends with a result or stops, and
leaves a heap behind.  A method that finds its receiver free, and of its type, does to the heap what
its body does, but for the fields that it writes back; any other receiver leaves the heap as it was.
-/

namespace ScriptHost

namespace HostM

variable {α β : Type}

/-- What a computation ends with on a heap, and the heap after it. -/
def runOn (m : HostM α) (objects : Objects) : Except (Stop HostError) α × Objects :=
  m.run.run objects

@[simp]
theorem runOn_pure (a : α) (objects : Objects) :
    (pure a : HostM α).runOn objects = (.ok a, objects) := rfl

@[simp]
theorem runOn_throw (stop : Stop HostError) (objects : Objects) :
    (throw stop : HostM α).runOn objects = (.error stop, objects) := rfl

@[simp]
theorem runOn_fail (e : HostError) (objects : Objects) :
    (fail e : HostM α).runOn objects = (.error (.error e), objects) := rfl

@[simp]
theorem runOn_instanceOf (id : ObjectId) (objects : Objects) :
    (instanceOf id).runOn objects = (.ok (objects.get id), objects) := rfl

@[simp]
theorem runOn_setFields (id : ObjectId) (fields : List Datum) (objects : Objects) :
    (setFields id fields).runOn objects =
      (.ok (), objects.set id { objects.get id with fields }) := rfl

theorem runOn_bind (m : HostM α) (f : α → HostM β) (objects : Objects) :
    (m >>= f).runOn objects =
      match m.runOn objects with
      | (.ok a, after) => (f a).runOn after
      | (.error stop, after) => (.error stop, after) := by
  simp only [runOn, ExceptT.run_bind, StateT.run_bind]
  rcases m.run.run objects with ⟨_ | _, after⟩ <;> rfl

/-- A computation goes on from the result of its first part. -/
theorem runOn_bind_ok {m : HostM α} {objects after : Objects} {a : α}
    (first : m.runOn objects = (.ok a, after)) (f : α → HostM β) :
    (m >>= f).runOn objects = (f a).runOn after := by
  rw [runOn_bind, first]

/-- A computation stops when its first part does. -/
theorem runOn_bind_stop {m : HostM α} {objects after : Objects} {stop : Stop HostError}
    (first : m.runOn objects = (.error stop, after)) (f : α → HostM β) :
    (m >>= f).runOn objects = (.error stop, after) := by
  rw [runOn_bind, first]

theorem runOn_holding (id : ObjectId) (hold : Hold) (m : HostM α) (objects : Objects) :
    (holding id hold m).runOn objects =
      ((m.runOn (objects.setHold id hold)).1,
        (m.runOn (objects.setHold id hold)).2.setHold id (objects.get id).hold) := rfl

/-- An object that nobody holds can be written. -/
theorem runOn_writable {id : ObjectId} {objects : Objects} (free : (objects.get id).hold = .free) :
    (writable id).runOn objects = (.ok (objects.get id), objects) := by
  rw [writable, runOn_bind_ok (runOn_instanceOf id objects), if_pos free, runOn_pure]

theorem runOn_textArg {args : List HostValue} {index : Nat} {text : String}
    (found : args[index]? = some (.str text)) (objects : Objects) :
    (textArg args index).runOn objects = (.ok text, objects) := by
  simp only [textArg, argument, found]
  rfl

/-- An argument that is missing, or that is no text, stops the computation without a trace. -/
theorem runOn_textArg_refused {args : List HostValue} {index : Nat}
    (missing : args[index]?.bind HostValue.text? = none) (objects : Objects) :
    ∃ e, (textArg args index).runOn objects = (.error (.error e), objects) := by
  cases found : args[index]? with
  | none =>
    refine ⟨.missingArgument (index + 1), ?_⟩
    simp only [textArg, argument, found]
    rfl
  | some v =>
    rw [found] at missing
    cases v with
    | str text => cases missing
    | _ =>
      apply Exists.intro
      simp only [textArg, argument, found]
      rfl

end HostM

/-- A computation of the host that a machine runs well changes its objects only. -/
theorem MachineM.runOn_onObjects_ok {ε α : Type} {f : HostError → ε} {m : HostM α}
    {s t : Machine} {a : α} :
    (onObjects f m).runOn s = (.ok a, t) ↔
      ∃ objects, m.runOn s.objects = (.ok a, objects) ∧ t = { s with objects } := by
  have outcome : (onObjects f m).runOn s =
      ((m.runOn s.objects).1.mapError (Stop.map f), { s with objects := (m.runOn s.objects).2 }) :=
    runOn_onObjects f m s
  rw [outcome]
  rcases m.runOn s.objects with ⟨stop | result, after⟩
  · constructor
    · intro same
      cases same
    · rintro ⟨objects, same, -⟩
      cases same
  · constructor
    · intro same
      cases same
      exact ⟨after, rfl, rfl⟩
    · rintro ⟨objects, same, rfl⟩
      cases same
      rfl

namespace Objects

variable {objects : Objects} {id other : ObjectId}

@[simp]
theorem size_set (objects : Objects) (id : ObjectId) (i : Instance) :
    (objects.set id i).size = objects.size := by
  rw [size, set, Array.size_setIfInBounds, size]

@[simp]
theorem size_add (objects : Objects) (i : Instance) :
    (objects.add i).2.size = objects.size + 1 := by
  rw [size, add, Array.size_push, size]

theorem set_set (objects : Objects) (id : ObjectId) (i j : Instance) :
    (objects.set id i).set id j = objects.set id j := by
  rw [set, set, set, Array.setIfInBounds_setIfInBounds]

theorem set_comm (apart : other ≠ id) (i j : Instance) :
    (objects.set id i).set other j = (objects.set other j).set id i := by
  have different : id.index ≠ other.index := by
    intro same
    cases id
    cases other
    exact apart (congrArg ObjectId.mk same.symm)
  rw [set, set, set, set, Array.setIfInBounds_comm _ _ different]

/-- Writing what is there changes nothing. -/
theorem set_get (objects : Objects) (id : ObjectId) :
    objects.set id (objects.get id) = objects := by
  cases objects with
  | mk instances =>
    rw [set, get]
    congr
    refine Array.ext_getElem? fun index => ?_
    rw [Array.getElem?_setIfInBounds]
    split
    · next same =>
      subst same
      split
      · next inside => rw [Array.getElem?_eq_getElem inside, Option.getD_some]
      · next beyond => rw [Array.getElem?_eq_none (Nat.le_of_not_lt beyond)]
    · rfl

/-- Beyond the heap nothing is written. -/
theorem set_of_le (beyond : objects.size ≤ id.index) (i : Instance) :
    objects.set id i = objects := by
  rw [set, Array.setIfInBounds_eq_of_size_le beyond]

/-- What stands at an identity beyond the heap is no object. -/
theorem get_of_le (beyond : objects.size ≤ id.index) : objects.get id = default := by
  rw [get, Array.getElem?_eq_none beyond, Option.getD_none]

theorem get_set_hold (hold : Hold) (inside : id.index < objects.size) :
    (objects.setHold id hold).get id = { objects.get id with hold } :=
  get_set_self objects _ inside

theorem get_setHold_of_ne (hold : Hold) (apart : other ≠ id) :
    (objects.setHold id hold).get other = objects.get other :=
  get_set_of_ne objects _ apart

/-- The stored values of an object are replaced. -/
def put (objects : Objects) (id : ObjectId) (fields : List Datum) : Objects :=
  objects.set id { objects.get id with fields }

@[simp]
theorem size_put (objects : Objects) (id : ObjectId) (fields : List Datum) :
    (objects.put id fields).size = objects.size := size_set _ _ _

theorem get_put_self (fields : List Datum) (inside : id.index < objects.size) :
    (objects.put id fields).get id = { objects.get id with fields } :=
  get_set_self objects _ inside

theorem get_put_of_ne (fields : List Datum) (apart : other ≠ id) :
    (objects.put id fields).get other = objects.get other :=
  get_set_of_ne objects _ apart

theorem get_put (objects : Objects) (id other : ObjectId) (fields : List Datum) :
    (objects.put id fields).get other = { objects.get id with fields } ∨
      (objects.put id fields).get other = objects.get other := by
  by_cases same : other = id
  · subst same
    by_cases inside : other.index < objects.size
    · exact .inl (get_put_self fields inside)
    · have beyond := Nat.le_of_not_lt inside
      right
      rw [get_of_le beyond, get_of_le (Nat.le_trans (Nat.le_of_eq (size_put ..)) beyond)]
  · exact .inr (get_put_of_ne fields same)

theorem put_put (objects : Objects) (id : ObjectId) (first second : List Datum) :
    (objects.put id first).put id second = objects.put id second := by
  by_cases inside : id.index < objects.size
  · rw [put, get_put_self first inside, put, set_set, put]
  · have beyond := Nat.le_of_not_lt inside
    have still (fields : List Datum) : objects.put id fields = objects := set_of_le beyond _
    rw [still first]

@[simp]
theorem put_fields (objects : Objects) (id : ObjectId) :
    objects.put id (objects.get id).fields = objects := set_get objects id

/-- A new object stands at the end of a heap; the others are found as before. -/
theorem get_add (objects : Objects) (i : Instance) (id : ObjectId) :
    (objects.add i).2.get id = i ∨ (objects.add i).2.get id = objects.get id := by
  rcases Nat.lt_trichotomy id.index objects.size with inside | last | beyond
  · exact .inr (get_add_of_lt objects i inside)
  · left
    have same : id = (objects.add i).1 := by
      cases id
      cases last
      rfl
    rw [same, get_add_self]
  · right
    have further : (objects.add i).2.size ≤ id.index := by
      rw [size, add, Array.size_push]
      exact beyond
    rw [get_of_le further, get_of_le (Nat.le_of_lt beyond)]

/-- What a new instance has in common with the one that it replaces is there for every object. -/
theorem apply_get_set {β : Type} (f : Instance → β) {i : Instance}
    (common : f i = f (objects.get id)) (other : ObjectId) :
    f ((objects.set id i).get other) = f (objects.get other) := by
  by_cases same : other = id
  · subst same
    by_cases inside : other.index < objects.size
    · rw [get_set_self objects i inside, common]
    · have beyond := Nat.le_of_not_lt inside
      rw [get_of_le beyond, get_of_le (Nat.le_trans (Nat.le_of_eq (size_set ..)) beyond)]
  · rw [get_set_of_ne objects i same]

@[simp]
theorem shape_put (objects : Objects) (id other : ObjectId) (fields : List Datum) :
    ((objects.put id fields).get other).shape = (objects.get other).shape := by
  refine apply_get_set Instance.shape ?_ other
  rfl

@[simp]
theorem shape_setHold (objects : Objects) (id other : ObjectId) (hold : Hold) :
    ((objects.setHold id hold).get other).shape = (objects.get other).shape := by
  refine apply_get_set Instance.shape ?_ other
  rfl

/-- Holding an object and letting go leaves no trace. -/
theorem setHold_setHold (objects : Objects) (id : ObjectId) (hold : Hold) :
    (objects.setHold id hold).setHold id (objects.get id).hold = objects := by
  by_cases inside : id.index < objects.size
  · rw [setHold, get_set_hold hold inside, setHold, set_set]
    exact set_get objects id
  · have beyond := Nat.le_of_not_lt inside
    have still : objects.setHold id hold = objects := set_of_le beyond _
    rw [still]
    exact set_of_le beyond _

/-- What happens to an object does not depend on who holds another one. -/
theorem put_setHold (apart : other ≠ id) (hold : Hold) (fields : List Datum) :
    (objects.setHold id hold).put other fields = (objects.put other fields).setHold id hold := by
  rw [put, get_setHold_of_ne hold apart, setHold, set_comm apart, setHold, put,
    get_set_of_ne objects _ (Ne.symm apart)]

end Objects

namespace Layout

open HostM

variable {α β : Type} (layout : Layout α) {objects after : Objects} {id : ObjectId}

/-- The type that an object is read as. -/
def readAt (objects : Objects) (id : ObjectId) : α :=
  layout.ofFields (objects.get id).fields

/-- An identity beyond the heap has no type with a name. -/
theorem inside_of_is (named : layout.shape.name ≠ "")
    (is : (objects.get id).shape.Is layout.shape) : id.index < objects.size := by
  refine Nat.lt_of_not_le fun beyond => named ?_
  rw [Objects.get_of_le beyond] at is
  exact is.2.symm

/-- A receiver of another type is refused, and a receiver that is held as well. -/
theorem runOn_onReceiver_refused (body : α → HostM (β × α))
    (other : ¬ (objects.get id).shape.Is layout.shape) :
    ∃ e, (layout.onReceiver id body).runOn objects = (.error (.error e), objects) := by
  by_cases free : (objects.get id).hold = .free
  · refine ⟨.receiver (objects.get id).shape.name, ?_⟩
    rw [onReceiver, runOn_bind_ok (runOn_writable free), if_neg other, runOn_fail]
  · refine ⟨.busy (objects.get id).shape.name, ?_⟩
    have refused : (writable id).runOn objects =
        (.error (.error (.busy (objects.get id).shape.name)), objects) := by
      rw [writable, runOn_bind_ok (runOn_instanceOf id objects), if_neg free, runOn_fail]
    rw [onReceiver, runOn_bind_stop refused]

section

variable (free : (objects.get id).hold = .free)
  (is : (objects.get id).shape.Is layout.shape) {body : α → HostM (β × α)}

include free is

/-- What a method does that ends well, in terms of its body. -/
theorem runOn_onReceiver_ok {b : β} {a : α}
    (inner : (body (layout.readAt objects id)).runOn (objects.setHold id .exclusive) =
      (.ok (b, a), after.setHold id .exclusive))
    (same : after.get id = objects.get id) :
    (layout.onReceiver id body).runOn objects = (.ok b, after.put id (layout.fields a)) := by
  have held : (holding id .exclusive (body (layout.readAt objects id))).runOn objects =
      (.ok (b, a), after) := by
    rw [runOn_holding, inner, ← same, Objects.setHold_setHold]
  rw [onReceiver, runOn_bind_ok (runOn_writable free), if_pos is]
  exact runOn_bind_ok held _

/-- A method whose body fails without a trace leaves none. -/
theorem runOn_onReceiver_stop {stop : Stop HostError}
    (inner : (body (layout.readAt objects id)).runOn (objects.setHold id .exclusive) =
      (.error stop, objects.setHold id .exclusive)) :
    (layout.onReceiver id body).runOn objects = (.error stop, objects) := by
  have held : (holding id .exclusive (body (layout.readAt objects id))).runOn objects =
      (.error stop, objects) := by
    rw [runOn_holding, inner, Objects.setHold_setHold]
  rw [onReceiver, runOn_bind_ok (runOn_writable free), if_pos is]
  exact runOn_bind_stop held _

end

end Layout

end ScriptHost
