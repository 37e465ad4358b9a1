import ScriptHost.Proofs.BridgedModules

/-!
# Handles of functions

A guest numbers the functions that it meets while it copies modules, and never drops one.  So the
handle that a copy has in the place of a function leads to that function as long as it is used on
the guest that gave the copy.  A handle does not tell its guest: another guest takes the same number
for a function of its own, and refuses it only where it has met too few.
-/

namespace ScriptHost

open MachineM

namespace Snapshot

/-! ## Copies and what they are of -/

section

variable (s : Machine) (functions : List Value)

mutual

/--
A copy of a value that was met at a path.  A handle is the number of the function that stands in its
place, with the path to that place.
-/
inductive Taken : String → Value → Snapshot → Prop where
  | nil (path : String) : Taken path .nil .nil
  /-- A table inside itself. -/
  | cut (path : String) (id : TableId) : Taken path (.table id) .nil
  | bool (path : String) (b : Bool) : Taken path (.bool b) (.bool b)
  | int (path : String) (i : Int64) : Taken path (.int i) (.int i)
  | integral (path : String) {x : Binary64} {i : Int64} (equal : x.toInt64? = some i) :
      Taken path (.float x) (.int i)
  | float (path : String) (x : Binary64) : Taken path (.float x) (.float x)
  | str (path : String) (bytes : ByteArray) : Taken path (.str bytes) (.str (Utf8.decode bytes))
  | function (path : String) {id : FunctionId} {index : Nat}
      (known : functions[index]? = some (.function id)) :
      Taken path (.function id) (.function ⟨index, path⟩)
  | table {path : String} {id : TableId} {rows : List (Snapshot × Snapshot)}
      (taken : TakenRows path (s.pairsOf id) rows) : Taken path (.table id) (.table rows)

/-- Rows that were copied from pairs in their order, some of which are left out. -/
inductive TakenRows : String → List (Value × Value) → List (Snapshot × Snapshot) → Prop where
  | nil (path : String) : TakenRows path [] []
  | omitted {path : String} {pairs : List (Value × Value)} {rows : List (Snapshot × Snapshot)}
      (pair : Value × Value) (rest : TakenRows path pairs rows) :
      TakenRows path (pair :: pairs) rows
  | row {path : String} {pair : Value × Value} {row : Snapshot × Snapshot}
      {pairs : List (Value × Value)} {rows : List (Snapshot × Snapshot)}
      (key : Taken path pair.1 row.1) (item : Taken (path ++ "." ++ row.1.pathPart) pair.2 row.2)
      (rest : TakenRows path pairs rows) : TakenRows path (pair :: pairs) (row :: rows)

end

end

/-- A handle stands somewhere in a copy. -/
inductive Gives : Snapshot → GuestFunction → Prop where
  | here (handle : GuestFunction) : Gives (.function handle) handle
  | inKey {rows : List (Snapshot × Snapshot)} {row : Snapshot × Snapshot} {handle : GuestFunction}
      (isRow : row ∈ rows) (inside : Gives row.1 handle) : Gives (.table rows) handle
  | inItem {rows : List (Snapshot × Snapshot)} {row : Snapshot × Snapshot} {handle : GuestFunction}
      (isRow : row ∈ rows) (inside : Gives row.2 handle) : Gives (.table rows) handle

variable {s : Machine} {functions : List Value}

mutual

/-- A copy stays good when more functions are known. -/
theorem Taken.more (more : List Value) {path : String} {v : Value} {snap : Snapshot} :
    Taken s functions path v snap → Taken s (functions ++ more) path v snap
  | .nil path => .nil path
  | .cut path id => .cut path id
  | .bool path b => .bool path b
  | .int path i => .int path i
  | .integral path equal => .integral path equal
  | .float path x => .float path x
  | .str path bytes => .str path bytes
  | .function path known => by
    have below := (List.getElem?_eq_some_iff.1 known).1
    exact .function path ((List.getElem?_append_left below).trans known)
  | .table rows => .table (rows.more more)

theorem TakenRows.more (more : List Value) {path : String} {pairs : List (Value × Value)}
    {rows : List (Snapshot × Snapshot)} :
    TakenRows s functions path pairs rows → TakenRows s (functions ++ more) path pairs rows
  | .nil path => .nil path
  | .omitted pair rest => .omitted pair (rest.more more)
  | .row key item rest => .row (key.more more) (item.more more) (rest.more more)

end

theorem TakenRows.exists_pair {path : String} {pairs : List (Value × Value)}
    {rows : List (Snapshot × Snapshot)} {row : Snapshot × Snapshot} :
    TakenRows s functions path pairs rows → row ∈ rows → ∃ pair ∈ pairs,
      Taken s functions path pair.1 row.1 ∧
        Taken s functions (path ++ "." ++ row.1.pathPart) pair.2 row.2
  | .nil _, isRow => by cases isRow
  | .omitted _ rest, isRow => by
    obtain ⟨pair, isPair, taken⟩ := rest.exists_pair isRow
    exact ⟨pair, List.mem_cons_of_mem _ isPair, taken⟩
  | .row key item rest, isRow => by
    rcases List.mem_cons.1 isRow with rfl | later
    · exact ⟨_, List.mem_cons_self, key, item⟩
    · obtain ⟨pair, isPair, taken⟩ := rest.exists_pair later
      exact ⟨pair, List.mem_cons_of_mem _ isPair, taken⟩

/-- Each handle in a copy leads to a function. -/
theorem Gives.known {snap : Snapshot} {handle : GuestFunction} (gives : snap.Gives handle)
    {path : String} {v : Value} (taken : Taken s functions path v snap) :
    ∃ id, functions[handle.index]? = some (.function id) := by
  induction gives generalizing path v with
  | here handle =>
    cases taken with
    | function _ known => exact ⟨_, known⟩
  | inKey isRow _ ih =>
    cases taken with
    | table rows =>
      obtain ⟨_, -, key, -⟩ := rows.exists_pair isRow
      exact ih key
  | inItem isRow _ ih =>
    cases taken with
    | table rows =>
      obtain ⟨_, -, -, item⟩ := rows.exists_pair isRow
      exact ih item

/-! ## Computations that meet functions -/

section Adds

variable {α β : Type} {good : List Value → α → Prop} {good' : List Value → β → Prop}

/--
However a computation ends, it adds functions at most to those that were met before; a result is
good for the functions that are known then.
-/
def Adds (m : SnapshotM α) (good : List Value → α → Prop) : Prop :=
  ∀ functions, (∃ ids : List FunctionId,
      (m.run.run functions).2 = functions ++ ids.map Value.function) ∧
    ∀ a, (m.run.run functions).1 = .ok a → good (m.run.run functions).2 a

theorem Adds.pure {a : α} (isGood : ∀ functions, good functions a) :
    Adds (Pure.pure a) good := by
  refine fun functions => ⟨⟨[], (List.append_nil _).symm⟩, fun b same => ?_⟩
  cases same
  exact isGood functions

theorem Adds.throw (stop : Stop BridgeError) :
    Adds (MonadExcept.throw stop : SnapshotM α) good :=
  fun _ => ⟨⟨[], (List.append_nil _).symm⟩, fun _ same => by cases same⟩

/-- What was good stays good, so it can be used for what comes next. -/
theorem Adds.bind {m : SnapshotM α} {f : α → SnapshotM β} (first : Adds m good)
    (keeps : ∀ functions more a, good functions a → good (functions ++ more) a)
    (rest : ∀ a, Adds (f a) fun functions b => good functions a → good' functions b) :
    Adds (m >>= f) good' := by
  intro functions
  obtain ⟨⟨ids, grown⟩, isGood⟩ := first functions
  rcases run : m.run.run functions with ⟨stop | a, middle⟩
  · have stopped : (m >>= f).run.run functions = (.error stop, middle) := by
      rw [ExceptT.run_bind, StateT.run_bind, run]
      rfl
    rw [run] at grown
    rw [stopped]
    exact ⟨⟨ids, grown⟩, fun b same => by cases same⟩
  · have onward : (m >>= f).run.run functions = (f a).run.run middle := by
      rw [ExceptT.run_bind, StateT.run_bind, run]
      rfl
    rw [run] at grown isGood
    change middle = _ at grown
    obtain ⟨⟨more, grown'⟩, isGood'⟩ := rest a middle
    rw [onward]
    refine ⟨⟨ids ++ more, ?_⟩, fun b same => isGood' b same ?_⟩
    · rw [grown', grown, List.map_append, List.append_assoc]
    · rw [grown']
      exact keeps _ _ a (isGood a rfl)

theorem collect_adds (id : FunctionId) (path : String) :
    Adds (collect (.function id) path) (Taken s · path (.function id)) := by
  refine fun functions => ⟨⟨[id], rfl⟩, fun snap same => ?_⟩
  cases same
  exact .function path List.getElem?_concat_length

/-- Pairs are copied one after the other. -/
theorem entries_adds {copy : String → Value → SnapshotM Snapshot}
    (copies : ∀ path v, Adds (copy path v) (Taken s · path v)) (path : String)
    (pairs : List (Value × Value)) :
    Adds (entries copy path pairs) (TakenRows s · path pairs) := by
  induction pairs with
  | nil => exact .pure fun _ => .nil path
  | cons pair rest ih =>
    have keeps (functions more : List Value) (path : String) (v : Value) (snap : Snapshot)
        (taken : Taken s functions path v snap) := taken.more more
    refine (copies path pair.1).bind (fun functions more => keeps functions more _ _) fun k =>
      (copies _ pair.2).bind (fun functions more => keeps functions more _ _) fun item =>
        ih.bind (fun functions more _ taken => taken.more more) fun rows => .pure ?_
    intro functions others value key
    split
    · exact .omitted pair others
    · refine .row ?_ ?_ others
      · exact key
      · exact value

theorem take_leaf_adds (depth : Nat) (passed : List TableId) (path : String) {v : Value}
    (noTable : ∀ id, v ≠ .table id) : Adds (take s depth passed path v) (Taken s · path v) := by
  cases v with
  | nil => cases depth <;> exact .pure fun _ => .nil path
  | bool b => cases depth <;> exact .pure fun _ => .bool path b
  | int i => cases depth <;> exact .pure fun _ => .int path i
  | float x =>
    rw [take]
    cases integral : x.toInt64? with
    | some i => exact .pure fun _ => .integral path integral
    | none => exact .pure fun _ => .float path x
  | str bytes => cases depth <;> exact .pure fun _ => .str path bytes
  | table id => exact absurd rfl (noTable id)
  | function id => cases depth <;> exact collect_adds id path
  | _ => cases depth <;> exact .throw _

/-- The functions in a value are met when it is copied, and the handles in the copy lead to them. -/
theorem take_adds (depth : Nat) (passed : List TableId) (path : String) (v : Value) :
    Adds (take s depth passed path v) (Taken s · path v) := by
  induction depth generalizing passed path v with
  | zero =>
    by_cases isTable : ∃ id, v = .table id
    · obtain ⟨id, rfl⟩ := isTable
      rw [take, ite_self]
      exact .pure fun _ => .cut path id
    · exact take_leaf_adds 0 passed path fun id same => isTable ⟨id, same⟩
  | succ depth ih =>
    by_cases isTable : ∃ id, v = .table id
    · obtain ⟨id, rfl⟩ := isTable
      rw [take]
      split
      · exact .pure fun _ => .cut path id
      · exact (entries_adds (ih (id :: passed)) path (s.pairsOf id)).bind
          (fun _ more _ taken => taken.more more) fun rows => .pure fun _ taken => .table taken
    · exact take_leaf_adds (depth + 1) passed path fun id same => isTable ⟨id, same⟩

end Adds

end Snapshot
namespace Guest

open Snapshot

variable (call : Caller)

/-- What a guest does to call a function that it knows. -/
def invoke (f : Value) (path : String) (args : List HostValue) (count : Nat) :
    BridgeM (List String) := do
  let args ← textArguments 1 args
  let results ← mapError (.call path) (ScriptM.callFor call f args)
  textResults path count 1 results

/-! ## Calls of handles -/

section

variable {call} {guest : Guest} {handle : GuestFunction} {f : Value} {args : List HostValue}
  {count : Nat}

theorem callFunction_of_known (known : guest.functions[handle.index]? = some f) :
    callFunction call guest handle args count =
      guest.within (invoke call f handle.path args count) := by
  rw [callFunction, known]
  rfl

theorem callFunction_of_unknown (beyond : guest.functions.length ≤ handle.index) :
    callFunction call guest handle args count =
      (.error (.error (.unknownFunction handle.index)), guest) := by
  rw [callFunction, List.getElem?_eq_none beyond]

theorem functions_callFunction :
    (callFunction call guest handle args count).2.functions = guest.functions := by
  unfold callFunction
  split <;> rfl

/-- A computation that never says that it does not know a function. -/
def Knows {α : Type} (m : BridgeM α) : Prop :=
  ∀ s number t, m.runOn s ≠ (.error (.error (.unknownFunction number)), t)

theorem Knows.pure {α : Type} (a : α) : Knows (Pure.pure a) := fun _ _ _ same => by cases same

theorem Knows.bind {α β : Type} {m : BridgeM α} {f : α → BridgeM β} (first : Knows m)
    (rest : ∀ a, Knows (f a)) : Knows (m >>= f) := by
  intro s number t run
  rcases outcome : m.runOn s with ⟨stop | a, u⟩
  · rw [runOn_bind_stop outcome] at run
    cases run
    exact first s number t outcome
  · rw [runOn_bind_ok outcome] at run
    exact rest a u number t run

theorem textArguments_knows (index : Nat) (args : List HostValue) :
    Knows (textArguments index args) := by
  induction args generalizing index with
  | nil => exact .pure _
  | cons v rest ih =>
    cases v with
    | str s => exact (ih (index + 1)).bind fun _ => .pure _
    | _ => exact fun _ _ _ same => by cases same

theorem textResults_knows (path : String) (count index : Nat) (results : List Value) :
    Knows (textResults path count index results) := by
  induction count generalizing index results with
  | zero => exact .pure _
  | succ count ih =>
    rw [textResults]
    split
    · exact (ih (index + 1) results.tail).bind fun _ => .pure _
    · exact fun _ _ _ same => by cases same

theorem invoke_knows : Knows (invoke call f handle.path args count) := by
  refine (textArguments_knows 1 args).bind fun _ => .bind ?_ fun _ => textResults_knows _ _ _ _
  intro s number t run
  rw [runOn_mapError] at run
  rcases outcome : (ScriptM.callFor call f _).runOn s with ⟨(_ | _ | _) | _, u⟩ <;>
    rw [outcome] at run <;> cases run

/-- A guest runs a function for a handle unless it has met too few. -/
theorem callFunction_unknown_iff :
    (callFunction call guest handle args count).1 =
        .error (.error (.unknownFunction handle.index)) ↔
      guest.functions.length ≤ handle.index := by
  constructor
  · intro unknown
    by_contra within
    have known := List.getElem?_eq_getElem (Nat.lt_of_not_le within)
    rw [callFunction_of_known known] at unknown
    exact invoke_knows guest.machine handle.index _ (Prod.ext unknown rfl)
  · intro beyond
    rw [callFunction_of_unknown beyond]

end

/-! ## Guests that are used in turn -/

theorem snapshot_taken {guest after : Guest} {module : String}
    {result : Except (Stop BridgeError) Snapshot}
    (run : guest.snapshot call module = (result, after)) :
    (∃ ids : List FunctionId, after.functions = guest.functions ++ ids.map .function) ∧
      ∀ copy, result = .ok copy → ∃ v now,
        guest.within (moduleValue call module) = (.ok v, now) ∧
          Taken now.machine after.functions module v copy := by
  have kept : (guest.within (moduleValue call module)).2.functions = guest.functions := rfl
  rcases required : guest.within (moduleValue call module) with ⟨stop | v, now⟩ <;>
    rw [required] at kept <;> rw [snapshot, required] at run
  · cases run
    exact ⟨⟨[], kept.trans (List.append_nil _).symm⟩, fun copy same => by cases same⟩
  · obtain ⟨⟨ids, grown⟩, taken⟩ := take_adds (s := now.machine) now.machine.tables.size [] module v
      now.functions
    cases run
    refine ⟨⟨ids, ?_⟩, fun copy same => ⟨v, now, rfl, taken copy same⟩⟩
    rw [← kept]
    exact grown

/-- A copy of a module that a guest gave, with the guest before it did. -/
structure Issue where
  owner : Nat
  before : Guest
  module : String
  copy : Snapshot

/--
Guests that were opened, and that copied modules and called functions in any order.  A guest that
was just opened knows no function.  The issues are the copies that came about, from the first on.
-/
inductive Bridging : List Issue → List Guest → Prop where
  | start : Bridging [] []
  | opened {issues : List Issue} {guests : List Guest} (before : Bridging issues guests)
      (guest : Guest) (new : guest.functions = []) : Bridging issues (guests ++ [guest])
  | copied {issues : List Issue} {guests : List Guest} {i : Nat} {guest after : Guest}
      {module : String} {copy : Snapshot} (before : Bridging issues guests)
      (at_ : guests[i]? = some guest) (run : guest.snapshot call module = (.ok copy, after)) :
      Bridging (issues ++ [⟨i, guest, module, copy⟩]) (guests.set i after)
  | refused {issues : List Issue} {guests : List Guest} {i : Nat} {guest after : Guest}
      {module : String} {stop : Stop BridgeError} (before : Bridging issues guests)
      (at_ : guests[i]? = some guest) (run : guest.snapshot call module = (.error stop, after)) :
      Bridging issues (guests.set i after)
  | called {issues : List Issue} {guests : List Guest} {i : Nat} {guest : Guest}
      (before : Bridging issues guests) (at_ : guests[i]? = some guest) (handle : GuestFunction)
      (args : List HostValue) (count : Nat) :
      Bridging issues (guests.set i (callFunction call guest handle args count).2)

/-- What a copy is of, and the functions that its owner knows, by which its handles lead there. -/
def Issue.Stands (issue : Issue) (guests : List Guest) : Prop :=
  ∃ v now owner, issue.before.within (moduleValue call issue.module) = (.ok v, now) ∧
    guests[issue.owner]? = some owner ∧ Taken now.machine owner.functions issue.module v issue.copy

variable {call} {issues : List Issue} {guests : List Guest} {issue : Issue}

/-- Guests of which each one knows the functions that it knew before, and perhaps others. -/
def Grow (guests later : List Guest) : Prop :=
  ∀ (i : Nat) (guest : Guest), guests[i]? = some guest →
    ∃ (after : Guest) (more : List Value), later[i]? = some after ∧ after.functions = guest.functions ++ more

theorem Grow.append (guests : List Guest) (guest : Guest) : Grow guests (guests ++ [guest]) := by
  intro i old there
  have below := (List.getElem?_eq_some_iff.1 there).1
  exact ⟨old, [], (List.getElem?_append_left below).trans there, (List.append_nil _).symm⟩

theorem Grow.set {i : Nat} {guest after : Guest} (there : guests[i]? = some guest)
    (grown : ∃ more, after.functions = guest.functions ++ more) :
    Grow guests (guests.set i after) := by
  intro j old found
  have below := (List.getElem?_eq_some_iff.1 found).1
  by_cases same : i = j
  · subst same
    cases there.symm.trans found
    obtain ⟨more, grown⟩ := grown
    exact ⟨after, more, List.getElem?_set_self below, grown⟩
  · exact ⟨old, [], (List.getElem?_set_ne same).trans found, (List.append_nil _).symm⟩

theorem Issue.Stands.later {later : List Guest} (stands : issue.Stands call guests)
    (grow : Grow guests later) : issue.Stands call later := by
  obtain ⟨v, now, owner, met, there, taken⟩ := stands
  obtain ⟨after, more, found, grown⟩ := grow issue.owner owner there
  exact ⟨v, now, after, met, found, grown ▸ taken.more more⟩

/-- What holds of guests that are used in turn, and of the copies that they gave. -/
structure Bridged (call : Caller) (issues : List Issue) (guests : List Guest) : Prop where
  stands : ∀ issue ∈ issues, issue.Stands call guests
  functions : ∀ guest ∈ guests, ∀ f ∈ guest.functions, ∃ id, f = .function id

theorem Bridged.set {i : Nat} {guest after : Guest} (bridged : Bridged call issues guests)
    (there : guests[i]? = some guest)
    (grown : ∃ ids : List FunctionId, after.functions = guest.functions ++ ids.map .function) :
    Bridged call issues (guests.set i after) := by
  obtain ⟨ids, grown⟩ := grown
  refine ⟨fun issue issued => (bridged.stands issue issued).later (.set there ⟨_, grown⟩),
    fun other among f inside => ?_⟩
  rcases List.mem_or_eq_of_mem_set among with before | rfl
  · exact bridged.functions other before f inside
  · rw [grown, List.mem_append, List.mem_map] at inside
    rcases inside with old | ⟨id, -, rfl⟩
    · exact bridged.functions guest (List.mem_of_getElem? there) f old
    · exact ⟨id, rfl⟩

theorem Bridging.bridged (bridging : Bridging call issues guests) :
    Bridged call issues guests := by
  induction bridging with
  | start => exact ⟨fun _ issued => absurd issued List.not_mem_nil,
      fun _ among => absurd among List.not_mem_nil⟩
  | opened _ guest new ih =>
    refine ⟨fun issue issued => (ih.stands issue issued).later (.append _ guest),
      fun other among f inside => ?_⟩
    rcases List.mem_append.1 among with before | last
    · exact ih.functions other before f inside
    · rw [List.mem_singleton.1 last, new] at inside
      cases inside
  | @copied issues guests i guest after module copy _ there run ih =>
    obtain ⟨grown, taken⟩ := snapshot_taken call run
    have set := ih.set there grown
    refine ⟨fun issue issued => ?_, set.functions⟩
    rcases List.mem_append.1 issued with before | last
    · exact set.stands issue before
    · rw [List.mem_singleton.1 last]
      obtain ⟨v, now, met, taken⟩ := taken copy rfl
      have below := (List.getElem?_eq_some_iff.1 there).1
      exact ⟨v, now, after, met, List.getElem?_set_self below, taken⟩
  | refused _ there run ih => exact ih.set there (snapshot_taken call run).1
  | called _ there handle args count ih =>
    exact ih.set there ⟨[], functions_callFunction.trans (List.append_nil _).symm⟩

/--
However guests are used in turn, a copy that one of them gave has a handle in the place of each
function, with the path to that place, and at any later time the guest runs that very function for
the handle.  Any other guest runs the function that it has itself met under the same number, and it
says that the function is unknown exactly if it has met too few.
-/
theorem function_of_handle (bridging : Bridging call issues guests) (issued : issue ∈ issues) :
    ∃ v now owner, issue.before.within (moduleValue call issue.module) = (.ok v, now) ∧
      guests[issue.owner]? = some owner ∧
      Taken now.machine owner.functions issue.module v issue.copy ∧
      ∀ handle, issue.copy.Gives handle →
        (∃ id, owner.functions[handle.index]? = some (.function id) ∧
          ∀ args count, callFunction call owner handle args count =
            owner.within (invoke call (.function id) handle.path args count)) ∧
        ∀ other ∈ guests, ∀ args count,
          ((callFunction call other handle args count).1 =
              .error (.error (.unknownFunction handle.index)) ↔
            other.functions.length ≤ handle.index) ∧
          (handle.index < other.functions.length →
            ∃ id, other.functions[handle.index]? = some (.function id) ∧
              callFunction call other handle args count =
                other.within (invoke call (.function id) handle.path args count)) := by
  have bridged := bridging.bridged
  obtain ⟨v, now, owner, met, there, taken⟩ := bridged.stands issue issued
  refine ⟨v, now, owner, met, there, taken, fun handle gives => ⟨?_, fun other among args count =>
    ⟨callFunction_unknown_iff, fun below => ?_⟩⟩⟩
  · obtain ⟨id, known⟩ := gives.known taken
    exact ⟨id, known, fun args count => callFunction_of_known known⟩
  · have known := List.getElem?_eq_getElem below
    obtain ⟨id, same⟩ := bridged.functions other among _ (List.getElem_mem below)
    rw [same] at known
    exact ⟨id, known, callFunction_of_known known⟩

end Guest

/-! ## Two guests -/

namespace Guest

open Snapshot

/-- A guest with a module in its cache that holds one function. -/
def hosting (f : FunctionId) : Machine where
  tables := #[tableOf [(.text "require", .function ⟨0⟩)], tableOf [(.text "m", .table ⟨2⟩)],
    tableOf [(.text "f", .function f)]]
  functions := #[.native (.standard .require), .native (.standard .type),
    .native (.standard .toString)]
  globals := ⟨0⟩
  loaded := ⟨1⟩

/-- The guest after it required the module. -/
def hosted (f : FunctionId) : Machine := ((hosting f).searched ⟨0⟩ "require").searched ⟨1⟩ "m"

def hostedCopy : Snapshot := .table [(.str "f", .function ⟨0, "m.f"⟩)]

theorem take_hosted (f : FunctionId) :
    (take (hosted f) 3 [] "m" (.table ⟨2⟩)).run.run [] = (.ok hostedCopy, [.function f]) := by
  have pairs : (hosted f).pairsOf ⟨2⟩ = [(.text "f", .function f)] := by
    rw [hosted, Machine.pairsOf_searched, Machine.pairsOf_searched]
    refine Table.live_of_single (.text "f") (fun same => by cases same) fun other => ?_
    change (tableOf [(.text "f", .function f)]).get other = _
    rw [tableOf, List.foldl_cons, List.foldl_nil, Table.get_set, Table.get_empty]
  have key (path : String) : take (hosted f) 2 [⟨2⟩] path (.text "f") = pure (.str "f") := by
    rw [Value.text, take, Utf8.decode_toByteArray]
  have item (path : String) :
      take (hosted f) 2 [⟨2⟩] path (.function f) = collect (.function f) path := by
    rw [take]
  have rows : entries (take (hosted f) 2 [⟨2⟩]) "m" ((hosted f).pairsOf ⟨2⟩) = (do
      let item ← collect (.function f) "m.f"
      return if item.isNil then [] else [(.str "f", item)]) := by
    rw [pairs, entries, key, pure_bind, item]
    rfl
  rw [take, if_neg List.not_mem_nil]
  change (entries (take (hosted f) 2 [⟨2⟩]) "m" ((hosted f).pairsOf ⟨2⟩) >>= fun rows =>
    pure (Snapshot.table rows)).run.run [] = _
  rw [rows]
  rfl

theorem snapshot_hosting (f : FunctionId) :
    snapshot call ⟨hosting f, []⟩ "m" = (.ok hostedCopy, ⟨hosted f, [.function f]⟩) := by
  have global : (hosting f).held (hosting f).globals "require" = .function ⟨0⟩ := get_single _ _
  have cached : (hosting f).held (hosting f).loaded "m" = .table ⟨2⟩ := get_single _ _
  have required : (⟨hosting f, []⟩ : Guest).within (moduleValue call "m") =
      (.ok (.table ⟨2⟩), ⟨hosted f, []⟩) := within_moduleValue [] global rfl cached
    (show 0 + 1 < ScriptM.nestingLimit by decide) (show 0 + 22 ≤ ScriptM.stackLimit by decide)
  have size : (hosted f).tables.size = 3 := by
    rw [hosted, Machine.size_tables_searched, Machine.size_tables_searched]
    rfl
  have taken := take_hosted f
  rw [← size] at taken
  -- what is in the guest no longer matters
  generalize hosted f = machine at required taken
  exact snapshot_eq required taken

/--
Two guests copied a module each; both copies have the same handle.  The handle of the first one runs
another function on the second.
-/
theorem function_of_handle_hosted : ∃ issues guests,
    Bridging call issues guests ∧ ⟨0, ⟨hosting ⟨1⟩, []⟩, "m", hostedCopy⟩ ∈ issues ∧
      ∃ first second : Guest, guests = [first, second] ∧
        first.machine.functions[1]? = some (.native (.standard .type)) ∧
        second.machine.functions[2]? = some (.native (.standard .toString)) ∧
        ∀ args count,
          callFunction call first ⟨0, "m.f"⟩ args count =
            first.within (invoke call (.function ⟨1⟩) "m.f" args count) ∧
          callFunction call second ⟨0, "m.f"⟩ args count =
            second.within (invoke call (.function ⟨2⟩) "m.f" args count) := by
  have opened : Bridging call [] [⟨hosting ⟨1⟩, []⟩, ⟨hosting ⟨2⟩, []⟩] :=
    (Bridging.start.opened _ rfl).opened _ rfl
  have first := opened.copied (i := 0) rfl (snapshot_hosting ⟨1⟩)
  have both := first.copied (i := 1) rfl (snapshot_hosting ⟨2⟩)
  have functions (f : FunctionId) : (hosted f).functions = (hosting f).functions := by
    rw [hosted, Machine.functions_searched, Machine.functions_searched]
  refine ⟨_, _, both, List.mem_cons_self, _, _, rfl, ?_, ?_, fun args count => ?_⟩
  · rw [functions]
    rfl
  · rw [functions]
    rfl
  obtain ⟨-, -, owner, -, there, -, handles⟩ := function_of_handle both List.mem_cons_self
  obtain ⟨⟨id, known, own⟩, others⟩ := handles ⟨0, "m.f"⟩ (.inItem List.mem_cons_self (.here _))
  obtain ⟨-, foreign⟩ := others ⟨hosted ⟨2⟩, [.function ⟨2⟩]⟩ (.tail _ List.mem_cons_self) args count
  obtain ⟨other, also, runs⟩ := foreign Nat.one_pos
  cases there
  cases known
  cases also
  exact ⟨own args count, runs⟩

end Guest

end ScriptHost
