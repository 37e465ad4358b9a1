import ScriptHost.Host.Resource
import ScriptHost.Proofs.ClassCalls
import ScriptHost.Proofs.HostConversions

/-!
# Assignments that stop half way

A table is assigned to an object pair by pair, in the order in which it is traversed.  The first
pair that is refused ends the assignment: it has changed nothing, and what the pairs before it
brought to the object stays there.  So an order decides what a refused assignment leaves behind.  It
does not decide whether a table is refused: what a pair needs to go well does not depend on the
pairs before it.  The proof says this need once, for all machines that pairs of the table lead to.
-/

namespace ScriptHost

namespace Table

/-- Pairs in another order assign the same, as long as no key comes twice. -/
theorem assigned_of_perm {pairs order : List (Value × Value)} {key before : Value}
    (perm : order.Perm pairs) (distinct : (pairs.map fun pair => pair.1.asKey).Nodup) :
    assigned order key before = assigned pairs key before := by
  have also : (order.map fun pair => pair.1.asKey).Nodup := (perm.map _).nodup_iff.2 distinct
  by_cases present : ∃ pair ∈ pairs, key.asKey = pair.1.asKey
  · obtain ⟨⟨other, v⟩, inside, same⟩ := present
    have final (items : List (Value × Value)) :
        assigned items key before = assigned items other before := by
      simp only [assigned, same]
    rw [final, final, assigned_of_mem before also (perm.mem_iff.2 inside),
      assigned_of_mem before distinct inside]
  · have absent (pair : Value × Value) (inside : pair ∈ pairs) : key.asKey ≠ pair.1.asKey :=
      fun same => present ⟨pair, inside, same⟩
    rw [assigned_of_not_mem before absent,
      assigned_of_not_mem before fun pair inside => absent pair (perm.mem_iff.1 inside)]

end Table

/-! ## What decides whether a pair goes well -/

/-- The stored form in which the public field of a name takes a scalar. -/
def Shape.kept? (shape : Shape) (name : String) (v : HostValue) : Option Datum :=
  (shape.publicField? name).bind (·.storage.kept? v)

namespace HostM

variable {o : ObjectId} {name : String} {v : HostValue} {objects : Objects}

/-- A free object takes a scalar that its field has a stored form for. -/
theorem runOn_setField_of_kept {datum : Datum} (scalar : v.isScalar = true)
    (free : (objects.get o).hold = .free)
    (kept : (objects.get o).shape.kept? name v = some datum) :
    (setField o name v).runOn objects = (.ok (), objects.put o
      (Instance.setStored name datum (objects.get o).shape.fields (objects.get o).fields)) := by
  obtain ⟨field, found, kept⟩ := Option.bind_eq_some_iff.1 kept
  have stored : ((field.storage.store v).runOn {}).1 = .ok datum := by
    rw [Storage.kept?] at kept
    cases outcome : ((field.storage.store v).runOn {}).1 with
    | error stop =>
      rw [outcome] at kept
      cases kept
    | ok other =>
      rw [outcome] at kept
      rw [Option.some.inj kept]
  have held : (holding o .exclusive (field.storage.store v)).runOn objects =
      (.ok datum, objects) := by
    rw [runOn_holding, field.storage.runOn_store_scalar scalar, Objects.setHold_setHold, stored]
  rw [setField, runOn_bind_ok (runOn_writable free), found]
  exact runOn_bind_ok held _

/-- An object that somebody holds takes nothing. -/
theorem runOn_setField_held (held : (objects.get o).hold ≠ .free) :
    (setField o name v).runOn objects =
      (.error (.error (.busy (objects.get o).shape.name)), objects) := by
  have busy : (writable o).runOn objects =
      (.error (.error (.busy (objects.get o).shape.name)), objects) := by
    rw [writable, runOn_bind_ok (runOn_instanceOf o objects), if_neg held, runOn_fail]
  rw [setField, runOn_bind_stop busy]

/-- A scalar that is not taken leaves the heap as it was. -/
theorem runOn_setField_refused (scalar : v.isScalar = true)
    (refused : (objects.get o).hold = .free → (objects.get o).shape.kept? name v = none) :
    ∃ stop, (setField o name v).runOn objects = (.error stop, objects) := by
  by_cases free : (objects.get o).hold = .free
  · cases found : (objects.get o).shape.publicField? name with
    | none =>
      refine ⟨.error (.noField (objects.get o).shape.name name), ?_⟩
      rw [setField, runOn_bind_ok (runOn_writable free), found]
      rfl
    | some field =>
      have none := refused free
      rw [Shape.kept?, found, Option.bind_some, Storage.kept?] at none
      cases stored : ((field.storage.store v).runOn {}).1 with
      | ok datum =>
        rw [stored] at none
        cases none
      | error stop =>
        have held : (holding o .exclusive (field.storage.store v)).runOn objects =
            (.error stop, objects) := by
          rw [runOn_holding, field.storage.runOn_store_scalar scalar, Objects.setHold_setHold,
            stored]
        refine ⟨stop, ?_⟩
        rw [setField, runOn_bind_ok (runOn_writable free), found]
        exact runOn_bind_stop held _
  · exact ⟨_, runOn_setField_held free⟩

/-- An assignment of a scalar that stops has left the heap as it was. -/
theorem objects_of_setField_stop {stop : Stop HostError} {after : Objects}
    (scalar : v.isScalar = true)
    (run : (setField o name v).runOn objects = (.error stop, after)) : after = objects := by
  have refused : (objects.get o).hold = .free → (objects.get o).shape.kept? name v = none := by
    intro free
    cases kept : (objects.get o).shape.kept? name v with
    | none => rfl
    | some datum =>
      rw [runOn_setField_of_kept scalar free kept] at run
      cases run
  obtain ⟨other, same⟩ := runOn_setField_refused scalar refused
  rw [run] at same
  cases same
  rfl

end HostM

namespace Machine

variable {s t u : Machine} {o : ObjectId} {v w : Value}

/-- The machine in which an object has other stored values. -/
def withData (s : Machine) (o : ObjectId) (data : List Datum) : Machine :=
  { s with objects := s.objects.put o data }

/-- A machine during an assignment: the object has other stored values, nothing else is new. -/
def Midway (s : Machine) (o : ObjectId) (t : Machine) : Prop :=
  ∃ data, data.length = (s.objects.get o).shape.fields.length ∧ (s.withData o data).Later t

/-- Machines with the same tables and proxies have the same chains. -/
theorem Chain.congr (pairs : ∀ id, t.pairsOf id = s.pairsOf id)
    (proxies : ∀ id, t.unwrap? id = s.unwrap? id) {chain : List TableId}
    (isChain : s.Chain v chain) : t.Chain v chain := by
  induction isChain with
  | last plain => exact .last ((proxies _).trans plain)
  | cons plain holds _ ih =>
    obtain ⟨pair, inside, same⟩ := holds
    exact .cons ((proxies _).trans plain) ⟨pair, (pairs _).symm ▸ inside, same⟩ ih

theorem chain_withData {data : List Datum} {chain : List TableId} :
    (s.withData o data).Chain v chain ↔ s.Chain v chain := by
  constructor
  · exact Chain.congr (s := s.withData o data) (t := s) (fun _ => rfl) fun _ => rfl
  · exact Chain.congr (s := s) (t := s.withData o data) (fun _ => rfl) fun _ => rfl

theorem shallow_withData {data : List Datum} {depth : Nat} :
    (s.withData o data).Shallow v depth ↔ s.Shallow v depth := by
  rw [Shallow, Shallow]
  simp only [chain_withData]

theorem reaches_withData {data : List Datum} {id : TableId} :
    (s.withData o data).Reaches v id ↔ s.Reaches v id := by
  rw [Reaches, Reaches]
  simp only [chain_withData]

theorem Midway.refl (full : (s.objects.get o).fields.length =
    (s.objects.get o).shape.fields.length) : s.Midway o s := by
  refine ⟨(s.objects.get o).fields, full, ?_⟩
  rw [withData, Objects.put_fields]
  exact .refl s

namespace Midway

/-- During an assignment the object is as it was but for its stored values. -/
theorem object (midway : s.Midway o t) :
    (t.objects.get o).shape = (s.objects.get o).shape ∧
      (t.objects.get o).hold = (s.objects.get o).hold ∧
      (t.objects.get o).fields.length = (s.objects.get o).shape.fields.length := by
  obtain ⟨data, full, later⟩ := midway
  rw [later.objects, withData, Crossing.get_put_full full]
  exact ⟨rfl, rfl, full⟩

theorem declared (midway : s.Midway o t) (declared : (s.objects.get o).Declared) :
    (t.objects.get o).Declared := by
  obtain ⟨shape, -, full⟩ := midway.object
  exact ⟨shape ▸ declared.shape, shape ▸ full⟩

theorem offered (midway : s.Midway o t) (v : Value) : t.offered v = s.offered v := by
  obtain ⟨data, full, n, rfl⟩ := midway
  rfl

theorem later (midway : s.Midway o t) (later : t.Later u) : s.Midway o u := by
  obtain ⟨data, full, m, rfl⟩ := midway
  obtain ⟨n, rfl⟩ := later
  refine ⟨data, full, m + n, ?_⟩
  simp [withData, Array.append_assoc, Array.replicate_append_replicate]

/-- The object takes something more. -/
theorem put (midway : s.Midway o t) {data : List Datum} {faults : Array Fault}
    (full : data.length = (s.objects.get o).shape.fields.length)
    (later : t.Later { t with faults }) :
    s.Midway o { t with objects := t.objects.put o data, faults } := by
  obtain ⟨old, -, m, rfl⟩ := midway
  obtain ⟨n, same⟩ := later
  have grown := congrArg Machine.faults same
  dsimp only at grown
  subst grown
  refine ⟨data, full, m + n, ?_⟩
  simp [withData, Array.append_assoc, Array.replicate_append_replicate, Objects.put_put]

end Midway

/-- What a field takes of pairs: what comes under its own name, if that fits. -/
def acceptedAmong (s : Machine) (pairs : List (Value × Value)) (f : Field) : Option HostValue :=
  s.acceptedOf f (Table.assigned pairs (.text f.name) .nil)

/-- The pairs of a table in any order bring a field what the table brings it. -/
theorem acceptedAmong_of_perm {order : List (Value × Value)} {id : TableId}
    (perm : order.Perm (s.pairsOf id)) : s.acceptedAmong order = s.brought id := by
  funext f
  rw [acceptedAmong, brought, accepted,
    Table.assigned_of_perm perm (Table.live_final_keys_nodup _), pairsOf, Table.assigned_live]

/-- What a public field needs to take a value, or to pass it over. -/
structure Suits (s : Machine) (o : ObjectId) (policy : AssignPolicy) (field : Field) (v : Value) :
    Prop where
  assignable : field.kind.isAssignable = true
  shallow : s.Shallow v Crossing.depthLimit
  quiet : ∀ id text, s.Reaches v id → ¬ s.Alarming id text
  stored : ∀ scalar, (s.offered v).bind (Crossing.fitted? field.kind) = some scalar →
    (s.objects.get o).hold = .free ∧
      ((s.objects.get o).shape.kept? field.name scalar).isSome = true
  passed : (s.offered v).bind (Crossing.fitted? field.kind) = none → policy = .lenient

/-- What a pair needs to be assigned to an object.  The values of other fields play no part. -/
structure Takes (s : Machine) (o : ObjectId) (policy : AssignPolicy) (pair : Value × Value) :
    Prop where
  quiet : ∀ text, ¬ s.Raises pair.1 text ∧ ¬ s.Raises pair.2 text
  suits : ∀ bytes field, pair.1 = .str bytes →
    (s.objects.get o).shape.publicField? (Utf8.decode bytes) = some field →
    s.Suits o policy field pair.2

end Machine

namespace Crossing

open Machine MachineM

variable {s t u : Machine} {o : ObjectId} {policy : AssignPolicy}

/-- A shallow value on its way to the host, without a panic on the way: only a key can stop it. -/
theorem toHost_of_shallow {v : Value} (midway : s.Midway o t) (shallow : s.Shallow v depthLimit)
    (quiet : ∀ id text, s.Reaches v id → ¬ s.Alarming id text) :
    (∃ h u, (toHost v).runOn t = (.ok h, u) ∧ t.Later u) ∨
      ∃ u, (toHost v).runOn t = (.error .endless, u) := by
  obtain ⟨data, full, later⟩ := midway
  obtain ⟨h, u, run, -⟩ | ⟨stop, u, run, stops⟩ :=
    hostValue_converts (s.withData o data) depthLimit [] v t later
  · exact .inl ⟨h, u, run, (toHost_ok run).2⟩
  · cases stops with
    | again reaches back =>
      obtain ⟨chain, isChain, long⟩ :=
        reaches.chains_unbounded (back.resolve_left nofun) (depthLimit + 1)
      have short := shallow chain (chain_withData.1 isChain)
      omega
    | deep isChain _ _ long =>
      have short := shallow _ (chain_withData.1 isChain)
      omega
    | alarm reaches alarming => exact absurd alarming (quiet _ _ (reaches_withData.1 reaches))
    | unnamed => exact .inr ⟨u, run⟩

/-- The host takes failures of scripts for the same, whichever they are. -/
theorem assignEntry_alike {k l v w : Value} (keys : Alike k l) (values : Alike v w) :
    assignEntry o policy l w = assignEntry o policy k v := by
  have same : toHost w = toHost v := (hostValue_alike v w values).symm
  cases keys with
  | faults => rfl
  | same => simp only [assignEntry, same]

/-- An entry that was assigned was fit for it. -/
theorem suits_of_assignEntry {bytes : ByteArray} {v : Value} {field : Field}
    (midway : s.Midway o t)
    (found : (s.objects.get o).shape.publicField? (Utf8.decode bytes) = some field)
    (run : (assignEntry o policy (.str bytes) v).runOn t = (.ok (), u)) :
    s.Suits o policy field v := by
  obtain ⟨shape, hold, -⟩ := midway.object
  have named := (Shape.Declared.mem_of_publicField? found).2.1
  rw [assignEntry, runOn_bind_ok (runOn_get t), shape, found] at run
  dsimp only at run
  by_cases assignable : field.kind.isAssignable = true
  swap
  · rw [if_pos (by simpa using assignable)] at run
    cases run
  rw [if_neg (by simp [assignable])] at run
  obtain ⟨h, w, converted, run⟩ := runOn_bind_eq_ok.1 run
  obtain ⟨unfolds, later⟩ := toHost_ok converted
  have fits := unfolds.fitted? field.kind
  rw [midway.offered] at fits
  have deep : s.Shallow v depthLimit ∧ ∀ id text, s.Reaches v id → ¬ s.Alarming id text := by
    obtain ⟨data, full, before⟩ := midway
    refine ⟨shallow_withData.1 (hostValue_ok before converted).2.2, fun id text reaches => ?_⟩
    exact not_alarming_of_hostValue before converted (reaches_withData.2 reaches) text
  refine ⟨assignable, deep.1, deep.2, fun scalar offers => ?_, fun nothing => ?_⟩
  · rw [fits, offers] at run
    obtain ⟨objects, set, -⟩ := runOn_onObjects_ok.1 run
    by_contra unfit
    have none : (w.objects.get o).hold = .free →
        (w.objects.get o).shape.kept? (Utf8.decode bytes) scalar = none := by
      rw [later.objects, hold, shape, ← named]
      intro free
      by_contra kept
      exact unfit ⟨free, Option.isSome_iff_ne_none.2 kept⟩
    obtain ⟨stop, refused⟩ :=
      HostM.runOn_setField_refused (fitted?_isScalar (fits.trans offers)) none
    rw [refused] at set
    cases set
  · rw [fits, nothing] at run
    cases policy with
    | lenient => rfl
    | strict => cases run

/-- An entry that is fit to be assigned is assigned, unless the text of a key never ends. -/
theorem assignEntry_of_suits {bytes : ByteArray} {v : Value} {field : Field}
    (midway : s.Midway o t)
    (found : (s.objects.get o).shape.publicField? (Utf8.decode bytes) = some field)
    (suits : s.Suits o policy field v) :
    (∃ u, (assignEntry o policy (.str bytes) v).runOn t = (.ok (), u)) ∨
      ∃ u, (assignEntry o policy (.str bytes) v).runOn t = (.error .endless, u) := by
  obtain ⟨shape, hold, -⟩ := midway.object
  have named := (Shape.Declared.mem_of_publicField? found).2.1
  rw [assignEntry, runOn_bind_ok (runOn_get t), shape, found]
  dsimp only
  rw [if_neg (by simp [suits.assignable])]
  obtain ⟨h, w, converted, later⟩ | ⟨w, endless⟩ :=
    toHost_of_shallow midway suits.shallow suits.quiet
  swap
  · exact .inr ⟨w, runOn_bind_stop endless _⟩
  left
  rw [runOn_bind_ok converted, ((toHost_ok converted).1).fitted?, midway.offered]
  cases fits : (s.offered v).bind (fitted? field.kind) with
  | none =>
    obtain rfl := suits.passed fits
    exact ⟨w, rfl⟩
  | some scalar =>
    obtain ⟨free, kept⟩ := suits.stored scalar fits
    obtain ⟨datum, kept⟩ := Option.isSome_iff_exists.1 kept
    have isScalar : scalar.isScalar = true := by
      obtain ⟨offer, -, fits⟩ := Option.bind_eq_some_iff.1 fits
      exact fitted?_isScalar fits
    have set := HostM.runOn_setField_of_kept isScalar (hold.trans free)
      ((congrArg (·.kept? field.name scalar) shape).trans kept)
    rw [← later.objects, named] at set
    exact ⟨_, runOn_onObjects_ok.2 ⟨_, set, rfl⟩⟩

/-- An entry that is refused has changed nothing. -/
theorem assignEntry_stop {k v : Value} {stop : Stop CrossingError}
    (run : (assignEntry o policy k v).runOn t = (.error stop, u)) :
    ∃ faults, u = { t with faults } := by
  cases k with
  | str bytes =>
    rw [assignEntry, runOn_bind_ok (runOn_get t)] at run
    cases found : (t.objects.get o).shape.publicField? (Utf8.decode bytes) with
    | none =>
      rw [found] at run
      cases run
    | some field =>
      rw [found] at run
      dsimp only at run
      by_cases assignable : field.kind.isAssignable = true
      · rw [if_neg (by simp [assignable])] at run
        obtain ⟨faults, after⟩ := toHost_spares v t
        rcases converted : (toHost v).runOn t with ⟨other | h, w⟩
        · rw [runOn_bind_stop converted] at run
          rw [converted] at after
          cases run
          exact ⟨faults, after⟩
        · rw [runOn_bind_ok converted] at run
          rw [converted] at after
          cases fits : fitted? field.kind h with
          | some scalar =>
            rw [fits] at run
            dsimp only at run
            obtain rfl : w = { t with faults } := after
            obtain ⟨other, objects, set, rfl⟩ := runOn_onObjects_stop run
            rw [HostM.objects_of_setField_stop (fitted?_isScalar fits) set]
            exact ⟨faults, rfl⟩
          | none =>
            rw [fits] at run
            cases policy with
            | lenient => cases run
            | strict =>
              cases run
              exact ⟨faults, after⟩
      · rw [if_pos (by simpa using assignable)] at run
        cases run
        exact ⟨t.faults, rfl⟩
  | _ => cases run

/-- An entry that was assigned has added no panics. -/
theorem faults_of_assignEntry {k v : Value}
    (run : (assignEntry o policy k v).runOn t = (.ok (), u)) :
    ∃ n, u.faults = t.faults ++ Array.replicate n (.error .spentPanic) := by
  cases k with
  | str bytes =>
    rw [assignEntry, runOn_bind_ok (runOn_get t)] at run
    cases found : (t.objects.get o).shape.publicField? (Utf8.decode bytes) with
    | none =>
      rw [found] at run
      cases run
      exact ⟨0, by simp⟩
    | some field =>
      rw [found] at run
      dsimp only at run
      by_cases assignable : field.kind.isAssignable = true
      · rw [if_neg (by simp [assignable])] at run
        obtain ⟨h, w, converted, run⟩ := runOn_bind_eq_ok.1 run
        obtain ⟨n, rfl⟩ := (toHost_ok converted).2
        refine ⟨n, ?_⟩
        split at run
        · obtain ⟨objects, -, rfl⟩ := runOn_onObjects_ok.1 run
          rfl
        · cases policy with
          | lenient =>
            cases run
            rfl
          | strict => cases run
      · rw [if_pos (by simpa using assignable)] at run
        cases run
  | _ =>
    cases run
    exact ⟨0, by simp⟩

/-! ## One order and another -/

/-- The host assigns one pair of a table. -/
def assignPair (o : ObjectId) (policy : AssignPolicy) (pair : Value × Value) : CrossingM Unit := do
  let (k, v) ← receiveEntry pair
  assignEntry o policy k v

/-- The host assigns pairs of a table, in the order in which it meets them. -/
def assignPairs (o : ObjectId) (policy : AssignPolicy) (pairs : List (Value × Value)) :
    CrossingM Unit :=
  pairs.forM (assignPair o policy)

/-- A table is assigned in the order of its traversal. -/
theorem runOn_assign (s : Machine) (o : ObjectId) (id : TableId) (policy : AssignPolicy) :
    (assign o id policy).runOn s = (assignPairs o policy (s.pairsOf id)).runOn s := by
  rw [assign, runOn_bind_ok (runOn_table id s)]
  rfl

/-- A pair that is refused has changed nothing. -/
theorem assignPair_stop {pair : Value × Value} {stop : Stop CrossingError}
    (run : (assignPair o policy pair).runOn t = (.error stop, u)) :
    ∃ faults, u = { t with faults } := by
  rw [assignPair] at run
  obtain ⟨faults, after⟩ := receiveEntry_spares pair t
  rcases received : (receiveEntry pair).runOn t with ⟨other | ⟨k, v⟩, w⟩
  · rw [runOn_bind_stop received] at run
    rw [received] at after
    cases run
    exact ⟨faults, after⟩
  · rw [runOn_bind_ok received] at run
    rw [received] at after
    obtain ⟨others, rfl⟩ := assignEntry_stop run
    obtain rfl : w = { t with faults } := after
    exact ⟨others, rfl⟩

/-- A pair that was assigned had what it needed, and the assignment goes on. -/
theorem takes_of_assignPair {pair : Value × Value} (declared : (s.objects.get o).Declared)
    (midway : s.Midway o t) (run : (assignPair o policy pair).runOn t = (.ok (), u)) :
    s.Takes o policy pair ∧ s.Midway o u := by
  obtain ⟨⟨k, v⟩, w, received, assigned⟩ := runOn_bind_eq_ok.1 run
  dsimp only at assigned
  obtain ⟨later, likeKey, likeValue⟩ := receiveEntry_ok received
  have onward := midway.later later
  rw [assignEntry_alike likeKey likeValue] at assigned
  refine ⟨⟨fun text => ?_, fun bytes field isText found => ?_⟩, ?_⟩
  · obtain ⟨data, full, before⟩ := midway
    exact not_raises_of_receiveEntry before received text
  · rw [isText] at assigned
    exact suits_of_assignEntry onward found assigned
  · obtain ⟨n, added⟩ := faults_of_assignEntry assigned
    obtain ⟨faults, rfl⟩ := runOn_assignEntry_ok (onward.declared declared) assigned
    obtain ⟨shape, -, full⟩ := onward.object
    refine onward.put ?_ ⟨n, by rw [← added]⟩
    rw [length_updated, shape, full, Nat.min_self]

/-- A pair that has what it needs is assigned, unless the text of a key never ends. -/
theorem assignPair_of_takes {pair : Value × Value} (midway : s.Midway o t)
    (takes : s.Takes o policy pair) :
    (∃ u, (assignPair o policy pair).runOn t = (.ok (), u)) ∨
      ∃ u, (assignPair o policy pair).runOn t = (.error .endless, u) := by
  obtain ⟨k, v⟩ := pair
  obtain ⟨noKey, noValue⟩ := forall_and.1 takes.quiet
  have received : ∃ l w u, (receiveEntry (k, v)).runOn t = (.ok (l, w), u) ∧ s.Midway o u ∧
      Alike k l ∧ Alike v w := by
    obtain ⟨data, full, before⟩ := midway
    obtain ⟨l, x, tookKey, between, likeKey⟩ | ⟨text, _, raises, -⟩ := runOn_receive before k
    swap
    · exact absurd raises (noKey text)
    obtain ⟨w, u, tookValue, later, likeValue⟩ | ⟨text, _, raises, -⟩ := runOn_receive between v
    swap
    · exact absurd raises (noValue text)
    refine ⟨l, w, u, ?_, ⟨data, full, later⟩, likeKey, likeValue⟩
    rw [receiveEntry, runOn_bind_ok tookKey, runOn_bind_ok tookValue, runOn_pure]
  obtain ⟨l, w, u, received, onward, likeKey, likeValue⟩ := received
  rw [assignPair, runOn_bind_ok received]
  dsimp only
  rw [assignEntry_alike likeKey likeValue]
  cases k with
  | str bytes =>
    cases found : (s.objects.get o).shape.publicField? (Utf8.decode bytes) with
    | some field => exact assignEntry_of_suits onward found (takes.suits bytes field rfl found)
    | none =>
      rw [assignEntry, runOn_bind_ok (runOn_get u), onward.object.1, found]
      exact .inl ⟨u, rfl⟩
  | _ => exact .inl ⟨u, rfl⟩

/-- Pairs that were assigned had what they needed. -/
theorem takes_of_assignPairs {pairs : List (Value × Value)}
    (declared : (s.objects.get o).Declared) (midway : s.Midway o t)
    (run : (assignPairs o policy pairs).runOn t = (.ok (), u)) :
    ∀ pair ∈ pairs, s.Takes o policy pair := by
  induction pairs generalizing t with
  | nil => exact nofun
  | cons first rest ih =>
    rw [assignPairs, List.forM] at run
    obtain ⟨_, w, one, others⟩ := runOn_bind_eq_ok.1 run
    obtain ⟨takes, onward⟩ := takes_of_assignPair declared midway one
    exact List.forall_mem_cons.2 ⟨takes, ih onward others⟩

/-- Pairs that have what they need are assigned, unless the text of a key never ends. -/
theorem assignPairs_of_takes {pairs : List (Value × Value)}
    (declared : (s.objects.get o).Declared) (midway : s.Midway o t)
    (takes : ∀ pair ∈ pairs, s.Takes o policy pair) :
    (∃ u, (assignPairs o policy pairs).runOn t = (.ok (), u)) ∨
      ∃ u, (assignPairs o policy pairs).runOn t = (.error .endless, u) := by
  induction pairs generalizing t with
  | nil => exact .inl ⟨t, rfl⟩
  | cons first rest ih =>
    obtain ⟨here, later⟩ := List.forall_mem_cons.1 takes
    rw [assignPairs, List.forM]
    obtain ⟨u, one⟩ | ⟨u, endless⟩ := assignPair_of_takes midway here
    · rw [runOn_bind_ok one]
      exact ih (takes_of_assignPair declared midway one).2 later
    · exact .inr ⟨u, runOn_bind_stop endless _⟩

/-- Pairs under different keys that were assigned: each field has what it takes of them. -/
theorem runOn_assignPairs_ok {pairs : List (Value × Value)}
    (declared : (s.objects.get o).Declared)
    (distinct : (pairs.map fun pair => pair.1.asKey).Nodup)
    (run : (assignPairs o policy pairs).runOn s = (.ok (), u)) :
    ∃ faults, u = { s with
      objects := s.objects.put o (updated (s.objects.get o).shape.fields (s.objects.get o).fields
        (s.acceptedAmong pairs))
      faults } := by
  have start : { s with objects := s.objects.put o (s.objects.get o).fields } = s := by
    rw [Objects.put_fields]
  obtain ⟨faults, rfl⟩ := runOn_assignEntries_ok declared.shape pairs (s.objects.get o).fields
    s.faults declared.full (start.symm ▸ run)
  refine ⟨faults, ?_⟩
  have together := foldl_updated s.acceptedFrom pairs declared.full
  simp only [foldl_taking _ distinct] at together
  rw [together]
  rfl

/--
The host may meet the pairs of a table in any order.  Where it assigns all of them, each field has
what it takes of the table, and in any other order all of them are assigned too, and to the same
effect, unless the text of a key never ends.  Where it refuses one, the pairs before it have been
assigned for good: each field has what it takes of those, and nothing else has changed.
-/
theorem assigned_in_any_order {id : TableId} (declared : (s.objects.get o).Declared) :
    (assign o id policy).runOn s = (assignPairs o policy (s.pairsOf id)).runOn s ∧
    (∀ i, s.Represents i o → (Published.classSet policy [.table i, .table id]).runOn s =
      (do Published.crossed (assign o id policy); return []).runOn s) ∧
    ∀ order : List (Value × Value), order.Perm (s.pairsOf id) →
      (∀ t, (assignPairs o policy order).runOn s = (.ok (), t) →
        (∃ faults, t = { s with
          objects := s.objects.put o (updated (s.objects.get o).shape.fields
            (s.objects.get o).fields (s.brought id))
          faults }) ∧
        ∀ other, other.Perm (s.pairsOf id) →
          (∃ u, (assignPairs o policy other).runOn s = (.ok (), u) ∧ u.objects = t.objects) ∨
            ∃ u, (assignPairs o policy other).runOn s = (.error .endless, u)) ∧
      ∀ stop t, (assignPairs o policy order).runOn s = (.error stop, t) →
        ∃ before pair after u, order = before ++ pair :: after ∧
          (assignPairs o policy before).runOn s = (.ok (), u) ∧
          (assignPair o policy pair).runOn u = (.error stop, t) ∧
          ∃ faults, t = { s with
            objects := s.objects.put o (updated (s.objects.get o).shape.fields
              (s.objects.get o).fields (s.acceptedAmong before))
            faults } := by
  have keys (order : List (Value × Value)) (perm : order.Perm (s.pairsOf id)) :
      (order.map fun pair => pair.1.asKey).Nodup :=
    (perm.map _).nodup_iff.2 (Table.live_final_keys_nodup _)
  have whole (order : List (Value × Value)) (perm : order.Perm (s.pairsOf id)) (t : Machine)
      (run : (assignPairs o policy order).runOn s = (.ok (), t)) :
      ∃ faults, t = { s with
        objects := s.objects.put o (updated (s.objects.get o).shape.fields
          (s.objects.get o).fields (s.brought id))
        faults } := by
    obtain ⟨faults, rfl⟩ := runOn_assignPairs_ok declared (keys order perm) run
    rw [acceptedAmong_of_perm perm]
    exact ⟨faults, rfl⟩
  refine ⟨runOn_assign s o id policy, fun i proxy => Published.runOn_classSet proxy,
    fun order perm => ⟨fun t run => ⟨whole order perm t run, fun other also => ?_⟩,
      fun stop t run => ?_⟩⟩
  · have midway : s.Midway o s := .refl declared.full
    have takes := takes_of_assignPairs declared midway run
    obtain ⟨u, again⟩ | endless := assignPairs_of_takes declared midway
      fun pair inside => takes pair (perm.mem_iff.2 (also.mem_iff.1 inside))
    · obtain ⟨_, first⟩ := whole order perm t run
      obtain ⟨_, second⟩ := whole other also u again
      exact .inl ⟨u, again, by rw [first, second]⟩
    · exact .inr endless
  · obtain ⟨before, pair, after, u, rfl, assigned, stops⟩ := runOn_forM_stop run
    have distinct : (before.map fun pair => pair.1.asKey).Nodup :=
      (keys _ perm).sublist ((List.sublist_append_left _ _).map _)
    obtain ⟨_, rfl⟩ := runOn_assignPairs_ok declared distinct assigned
    obtain ⟨faults, rfl⟩ := assignPair_stop stops
    exact ⟨before, pair, after, _, rfl, assigned, stops, faults, rfl⟩

/-- A machine with a resource, and a table of a name and of labels, which scripts cannot assign. -/
def webNamed : Machine where
  tables := #[((Table.bare 0 2 none).putEntry (.text "name") (.text "web") rfl).putEntry
    (.text "labels") (.bool true) rfl]
  objects.instances := #[{ shape := Resource.shape, fields := Resource.layout.fields {} }]

theorem pairsOf_webNamed : webNamed.pairsOf ⟨0⟩ =
    [(.text "name", .text "web"), (.text "labels", .bool true)] := by
  have fresh :
      (Entries.empty.insert (.text "name") (.text "web")).get? (.text "labels") = .none := by
    have apart : (Value.text "name" == .text "labels") = false := by decide
    rw [Entries.get?_insert, apart, if_neg Bool.false_ne_true, Entries.get?_empty]
  have entries : ((Entries.empty.insert (.text "name") (.text "web")).insert (.text "labels")
      (.bool true)).toList = [(.text "name", .text "web"), (.text "labels", .bool true)] := by
    rw [Entries.toList_insert_new fresh, Entries.toList_insert_new (Entries.get?_empty _)]
    rfl
  exact congrArg (List.filter fun pair => !pair.2.isNil) entries

theorem declared_webNamed : (webNamed.objects.get ⟨0⟩).Declared := by
  refine ⟨⟨?_, ?_⟩, rfl⟩
  · change (Resource.shape.fields.map (·.name)).Nodup
    decide
  · change ∀ f ∈ Resource.shape.fields, Utf8.replacement ∉ f.name.toList
    decide

theorem labels_refused {t : Machine} (same : (t.objects.get ⟨0⟩).shape = Resource.shape) :
    (assignPair ⟨0⟩ .lenient (.text "labels", .bool true)).runOn t =
      (.error (.error (.unsupportedField "labels" "map")), t) := by
  change (assignEntry ⟨0⟩ .lenient (.str _) (.bool true)).runOn t = _
  rw [assignEntry, runOn_bind_ok (runOn_get t), Utf8.decode_toByteArray, same]
  rfl

theorem runOn_assign_webNamed : (assign ⟨0⟩ ⟨0⟩ .lenient).runOn webNamed =
    (.error (.error (.unsupportedField "labels" "map")),
      webNamed.withData ⟨0⟩ (Resource.layout.fields { name := "web" })) := by
  have named : (assignPair ⟨0⟩ .lenient (.text "name", .text "web")).runOn webNamed =
      (.ok (), webNamed.withData ⟨0⟩ (Resource.layout.fields { name := "web" })) := by
    change (assignEntry ⟨0⟩ .lenient (.str _) (.str _)).runOn webNamed = _
    have value : (toHost (.str "web".toByteArray)).runOn webNamed =
        (.ok (.str "web"), webNamed) := by
      rw [toHost, depthLimit, hostValue, Utf8.decode_toByteArray, runOn_pure]
    rw [assignEntry, runOn_bind_ok (runOn_get _), Utf8.decode_toByteArray]
    exact runOn_bind_ok value _
  rw [runOn_assign, pairsOf_webNamed, assignPairs, List.forM, runOn_bind_ok named, List.forM]
  exact runOn_bind_stop (labels_refused rfl) _

/-- A refused assignment leaves what it has done: the resource has its new name, or not. -/
theorem assign_leaves_name :
    (∃ t, (assign ⟨0⟩ ⟨0⟩ .lenient).runOn webNamed =
        (.error (.error (.unsupportedField "labels" "map")), t) ∧
      (webNamed.objects.get ⟨0⟩).stored? "name" = some (.text "") ∧
      (t.objects.get ⟨0⟩).stored? "name" = some (.text "web")) ∧
    ∃ t, (assignPairs ⟨0⟩ .lenient (webNamed.pairsOf ⟨0⟩).reverse).runOn webNamed =
        (.error (.error (.unsupportedField "labels" "map")), t) ∧
      (t.objects.get ⟨0⟩).stored? "name" = some (.text "") := by
  refine ⟨⟨_, runOn_assign_webNamed, rfl, rfl⟩, webNamed, ?_, rfl⟩
  rw [pairsOf_webNamed]
  exact runOn_bind_stop (labels_refused (t := webNamed) rfl) _

/-- What the resource has after the refusal is what it takes of the pairs before. -/
theorem assigned_before_labels :
    (webNamed.objects.get ⟨0⟩).Declared ∧ ∃ before pair after,
      webNamed.pairsOf ⟨0⟩ = before ++ pair :: after ∧
        (webNamed.withData ⟨0⟩ (Resource.layout.fields { name := "web" })).objects =
          webNamed.objects.put ⟨0⟩ (updated (webNamed.objects.get ⟨0⟩).shape.fields
            (webNamed.objects.get ⟨0⟩).fields (webNamed.acceptedAmong before)) := by
  obtain ⟨traversed, -, orders⟩ :=
    assigned_in_any_order (s := webNamed) declared_webNamed
  obtain ⟨before, pair, after, u, split, -, -, faults, same⟩ :=
    (orders _ (.refl _)).2 _ _ (traversed ▸ runOn_assign_webNamed)
  exact ⟨declared_webNamed, before, pair, after, split, congrArg Machine.objects same⟩

end Crossing

end ScriptHost
