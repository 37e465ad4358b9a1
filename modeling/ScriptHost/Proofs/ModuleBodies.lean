import ScriptHost.Calls
import ScriptHost.Proofs.Decoding
import ScriptHost.Proofs.ModuleSearch
import ScriptHost.Proofs.NormalForm
import ScriptHost.Proofs.Outcome
import ScriptHost.Proofs.TableMap

/-!
# Bodies of modules

The body of a module calls `require` with one name after the other and then returns a value.  What
it does in between leaves alone all that a resolver and other bodies depend on.  Bodies may depend
on any condition on the machine that all of them keep, and that their values keep in the cache.
-/

namespace ScriptHost

open MachineM ScriptM

/-- A value that crosses between scripts and the host as it is. -/
def Value.Crosses (v : Value) : Prop := ∀ index, v ≠ .fault index

theorem ScriptM.receive_of_crosses {ε : Type} {v : Value} (crosses : v.Crosses) :
    (receive v : MachineM ε Value) = pure v := by
  cases v with
  | fault index => exact absurd rfl (crosses index)
  | _ => rfl

theorem ScriptM.send_of_crosses {ε : Type} {v : Value} (crosses : v.Crosses) :
    (send v : MachineM ε Value) = pure v := by
  cases v with
  | fault index => exact absurd rfl (crosses index)
  | _ => rfl

theorem Value.isNil_eq_false {v : Value} (present : v ≠ .nil) : v.isNil = false := by
  cases v <;> first | rfl | exact absurd rfl present

theorem ScriptM.send_text {ε : Type} (name : String) :
    (send (.text name) : MachineM ε Value) = pure (.text name) := rfl

theorem ScriptM.mapM_send_text {ε : Type} (name : String) :
    ([.text name].mapM send : MachineM ε (List Value)) = pure [.text name] := rfl

theorem ScriptM.mapM_receive_of_crosses {ε : Type} {values : List Value}
    (crosses : ∀ v ∈ values, v.Crosses) :
    (values.mapM receive : MachineM ε (List Value)) = pure values := by
  induction values with
  | nil => rfl
  | cons v rest ih =>
    rw [List.mapM_cons, receive_of_crosses (crosses v List.mem_cons_self),
      ih fun w inside => crosses w (.tail _ inside)]
    rfl

namespace Machine

/-- The value under a name in a table. -/
def held (s : Machine) (id : TableId) (name : String) : Value :=
  (s.tables[id.index]?.getD default).get (.text name)

/-- The machine with a value under a name in a table. -/
def entering (s : Machine) (id : TableId) (name : String) (v : Value) : Machine :=
  { s with tables := s.tables.modify id.index (·.set (.text name) v) }

/-- A table that is not there has nothing. -/
theorem held_eq_nil_of_le {s : Machine} {id : TableId} (beyond : s.tables.size ≤ id.index)
    (name : String) : s.held id name = .nil := by
  rw [held, Array.getElem?_eq_none beyond]
  exact Table.get_empty _

theorem held_entering {s : Machine} {id : TableId} (known : id.index < s.tables.size)
    (name x : String) (v : Value) :
    (s.entering id name v).held id x = if x = name then v else s.held id x := by
  have same : (Value.text x).asKey = (Value.text name).asKey ↔ x = name := by
    simp [Value.text, Value.asKey, String.toByteArray_inj]
  simp only [held, entering, Array.getElem?_modify, if_true, Array.getElem?_eq_getElem known,
    Option.map_some, Option.getD_some, Table.get_set, same]

theorem held_entering_other {id other : TableId} (apart : id.index ≠ other.index) (s : Machine)
    (name x : String) (v : Value) : (s.entering id name v).held other x = s.held other x := by
  simp only [held, entering, Array.getElem?_modify, if_neg apart]

/-- What is entered under a name is found there, if at all, and nowhere else. -/
theorem held_entering_or (s : Machine) (id other : TableId) (name x : String) (v : Value) :
    (s.entering id name v).held other x = s.held other x ∨
      x = name ∧ (s.entering id name v).held other x = v := by
  unfold held entering
  rw [Array.getElem?_modify]
  split
  · cases s.tables[other.index]? with
    | none => exact .inl rfl
    | some t =>
      rw [Option.map_some, Option.getD_some, Table.get_set]
      split
      · next same =>
        exact .inr ⟨by simpa [Value.text, Value.asKey, String.toByteArray_inj] using same, rfl⟩
      · exact .inl rfl
  · exact .inl rfl

theorem metatable_entering (s : Machine) (id other : TableId) (name : String) (v : Value) :
    ((s.entering id name v).tables[other.index]?.getD default).metatable =
      (s.tables[other.index]?.getD default).metatable := by
  rw [entering, Array.getElem?_modify]
  split
  · cases s.tables[other.index]? with
    | none => rfl
    | some t => exact Table.metatable_set t (.text name) v
  · rfl

/-- The machine after a lookup of a name, which searches the table a little differently later. -/
def searched (s : Machine) (id : TableId) (name : String) : Machine :=
  if (s.tables[id.index]?.getD default).horizon <
      (s.tables[id.index]?.getD default).items.size then
    { s with tables := s.tables.modify id.index (·.touch (.text name)) }
  else s

/-- The innermost call in progress: where its slots are and where calls from outside go. -/
def base (s : Machine) : Nat := (s.frames.head?.map (·.base)).getD 0

def top (s : Machine) : Nat := (s.frames.head?.map (·.top)).getD 0

end Machine

theorem getElem?_push_of_some {α : Type} {items : Array α} {i : Nat} {x : α}
    (found : items[i]? = some x) (last : α) : (items.push last)[i]? = some x := by
  have known := (Array.getElem?_eq_some_iff.1 found).1
  rw [Array.getElem?_push_lt known, ← Array.getElem?_eq_getElem known, found]

/-- The variables of others keep their values. -/
def KeepsCells (s t : Machine) : Prop :=
  ∀ (i : Nat) (v : Value), s.cells[i]? = some v → t.cells[i]? = some v

theorem KeepsCells.refl (s : Machine) : KeepsCells s s := fun _ _ found => found

theorem KeepsCells.trans {s t u : Machine} (first : KeepsCells s t) (second : KeepsCells t u) :
    KeepsCells s u := fun i v found => second i v (first i v found)

/-- Scripts find all that they found before; there may be more functions and variables. -/
structure Machine.Undisturbed (s t : Machine) : Prop where
  globals : t.globals = s.globals
  tables : t.tables.size = s.tables.size
  entries : ∀ (id : TableId) (key : Value), (t.tables[id.index]?.getD default).get key =
    (s.tables[id.index]?.getD default).get key
  metatables : ∀ id : TableId, (t.tables[id.index]?.getD default).metatable =
    (s.tables[id.index]?.getD default).metatable
  functions : ∀ (i : Nat) (f : Function), s.functions[i]? = some f → t.functions[i]? = some f
  cells : KeepsCells s t

theorem Machine.Undisturbed.of_tables {s t : Machine} (globals : t.globals = s.globals)
    (tables : t.tables = s.tables)
    (functions : ∀ (i : Nat) (f : Function), s.functions[i]? = some f → t.functions[i]? = some f)
    (cells : KeepsCells s t) : s.Undisturbed t := by
  refine ⟨globals, ?_, fun _ _ => ?_, fun _ => ?_, functions, cells⟩
  · rw [tables]
  · rw [tables]
  · rw [tables]

theorem Machine.Undisturbed.trans {s t u : Machine} (first : s.Undisturbed t)
    (second : t.Undisturbed u) : s.Undisturbed u where
  globals := second.globals.trans first.globals
  tables := second.tables.trans first.tables
  entries id key := (second.entries id key).trans (first.entries id key)
  metatables id := (second.metatables id).trans (first.metatables id)
  functions i f found := second.functions i f (first.functions i f found)
  cells := first.cells.trans second.cells

/--
How scripts reach a resolver: the cache that it uses and the function that they call for it.  The
bodies of modules may rely on more, such as other global functions.
-/
structure Requirer where
  resolver : Nat
  cache : TableId
  function : FunctionId
  relies : Machine → Prop
  /-- What a resolver does by itself does not take that away. -/
  kept : ∀ s t, relies s → s.Undisturbed t → relies t

/-- What happens beside tables, functions and variables does not matter to bodies. -/
theorem Requirer.kept_beside {q : Requirer} {s t : Machine} (relied : q.relies s)
    (globals : t.globals = s.globals) (tables : t.tables = s.tables)
    (functions : t.functions = s.functions) (cells : t.cells = s.cells) : q.relies t := by
  refine q.kept s t relied (.of_tables globals tables ?_ ?_)
  · intro i f found
    rw [functions, found]
  · intro i v found
    rw [cells, found]

/-- What no body changes until it ends. -/
structure Steady (q : Requirer) (s t : Machine) : Prop where
  globals : t.globals = s.globals
  files : t.files = s.files
  nesting : t.nesting = s.nesting
  resolvers : t.resolvers = s.resolvers
  base : t.base = s.base
  top : t.top = s.top
  tables : s.tables.size ≤ t.tables.size
  functions : ∀ (i : Nat) (f : Function), s.functions[i]? = some f → t.functions[i]? = some f
  require : t.held t.globals "require" = s.held s.globals "require"
  relies : q.relies s → q.relies t

theorem Steady.refl (q : Requirer) (s : Machine) : Steady q s s :=
  ⟨rfl, rfl, rfl, rfl, rfl, rfl, Nat.le_refl _, fun _ _ found => found, rfl, id⟩

theorem Steady.trans {q : Requirer} {s t u : Machine} (first : Steady q s t)
    (second : Steady q t u) : Steady q s u where
  globals := second.globals.trans first.globals
  files := second.files.trans first.files
  nesting := second.nesting.trans first.nesting
  resolvers := second.resolvers.trans first.resolvers
  base := second.base.trans first.base
  top := second.top.trans first.top
  tables := Nat.le_trans first.tables second.tables
  functions := fun i f found => second.functions i f (first.functions i f found)
  require := second.require.trans first.require
  relies := second.relies ∘ first.relies

/-- A step that loads nothing either. -/
structure Quiet (q : Requirer) (s t : Machine) : Prop extends Steady q s t where
  cached : ∀ name, t.held q.cache name = s.held q.cache name
  loads : t.loads = s.loads

theorem Quiet.refl (q : Requirer) (s : Machine) : Quiet q s s := ⟨.refl q s, fun _ => rfl, rfl⟩

theorem Quiet.trans {q : Requirer} {s t u : Machine} (first : Quiet q s t) (second : Quiet q t u) :
    Quiet q s u where
  toSteady := first.toSteady.trans second.toSteady
  cached := fun name => (second.cached name).trans (first.cached name)
  loads := second.loads.trans first.loads

namespace Machine

variable (s : Machine) (id : TableId) (name : String)

theorem get_searched (other : TableId) (key : Value) :
    ((s.searched id name).tables[other.index]?.getD default).get key =
      (s.tables[other.index]?.getD default).get key := by
  have touched (t : Table) (key v : Value) : (t.touch key).get v = t.get v := by
    unfold Table.touch
    split
    · split
      · rfl
      · rfl
    · rfl
  unfold searched
  split
  · by_cases same : id.index = other.index
    · rw [Array.getElem?_modify, if_pos same]
      cases s.tables[other.index]? with
      | none => rfl
      | some t => exact touched t (.text name) key
    · rw [Array.getElem?_modify, if_neg same]
  · rfl

@[simp]
theorem held_searched (other : TableId) (x : String) :
    (s.searched id name).held other x = s.held other x := s.get_searched id name other (.text x)

/-- A lookup changes nothing but how a table is searched. -/
theorem searched_eq : ∃ tables, tables.size = s.tables.size ∧
    s.searched id name = { s with tables := tables } := by
  unfold searched
  split
  · exact ⟨_, Array.size_modify, rfl⟩
  · exact ⟨_, rfl, rfl⟩

@[simp]
theorem metatable_searched (other : TableId) :
    ((s.searched id name).tables[other.index]?.getD default).metatable =
      (s.tables[other.index]?.getD default).metatable := by
  have touched (t : Table) : (t.touch (.text name)).metatable = t.metatable := by
    unfold Table.touch
    split
    · split <;> rfl
    · rfl
  unfold searched
  split
  · rw [Array.getElem?_modify]
    split
    · cases s.tables[other.index]? with
      | none => rfl
      | some t => exact touched t
    · rfl
  · rfl

@[simp]
theorem globals_searched : (s.searched id name).globals = s.globals := by
  obtain ⟨tables, _, same⟩ := s.searched_eq id name
  rw [same]

@[simp]
theorem files_searched : (s.searched id name).files = s.files := by
  obtain ⟨tables, _, same⟩ := s.searched_eq id name
  rw [same]

@[simp]
theorem resolvers_searched : (s.searched id name).resolvers = s.resolvers := by
  obtain ⟨tables, _, same⟩ := s.searched_eq id name
  rw [same]

@[simp]
theorem objects_searched : (s.searched id name).objects = s.objects := by
  obtain ⟨tables, _, same⟩ := s.searched_eq id name
  rw [same]

@[simp]
theorem functions_searched : (s.searched id name).functions = s.functions := by
  obtain ⟨tables, _, same⟩ := s.searched_eq id name
  rw [same]

@[simp]
theorem cells_searched : (s.searched id name).cells = s.cells := by
  obtain ⟨tables, _, same⟩ := s.searched_eq id name
  rw [same]

@[simp]
theorem nesting_searched : (s.searched id name).nesting = s.nesting := by
  obtain ⟨tables, _, same⟩ := s.searched_eq id name
  rw [same]

@[simp]
theorem frames_searched : (s.searched id name).frames = s.frames := by
  obtain ⟨tables, _, same⟩ := s.searched_eq id name
  rw [same]

@[simp]
theorem size_tables_searched : (s.searched id name).tables.size = s.tables.size := by
  obtain ⟨tables, size, same⟩ := s.searched_eq id name
  rw [same]
  exact size

theorem undisturbed_searched : s.Undisturbed (s.searched id name) where
  globals := s.globals_searched id name
  tables := s.size_tables_searched id name
  entries := s.get_searched id name
  metatables := s.metatable_searched id name
  functions i f found := by rw [functions_searched, found]
  cells i v found := by rw [cells_searched, found]

theorem quiet_searched (q : Requirer) : Quiet q s (s.searched id name) := by
  have held := s.held_searched id name
  have undisturbed := s.undisturbed_searched id name
  obtain ⟨tables, size, same⟩ := s.searched_eq id name
  rw [same] at held undisturbed ⊢
  exact ⟨⟨rfl, rfl, rfl, rfl, rfl, rfl, Nat.le_of_eq size.symm, fun _ _ found => found,
    held _ _, fun relied => q.kept _ _ relied undisturbed⟩, fun x => held _ x, rfl⟩

end Machine

theorem runOn_lookup {ε : Type} (id : TableId) (name : String) (s : Machine) :
    (rawGet id (.text name) : MachineM ε Value).runOn s =
      (.ok (s.held id name), s.searched id name) := runOn_rawGet id _ s

/-- A machine in which scripts reach the resolver through the global variable. -/
structure Ready (q : Requirer) (s : Machine) : Prop where
  cache : q.cache.index < s.tables.size
  apart : s.globals.index ≠ q.cache.index
  require : s.held s.globals "require" = .function q.function
  native : s.functions[q.function.index]? = some (.native (.resolve q.resolver))
  relies : q.relies s

theorem Ready.onward {q : Requirer} {s t : Machine} (ready : Ready q s) (steady : Steady q s t) :
    Ready q t where
  cache := Nat.lt_of_lt_of_le ready.cache steady.tables
  apart := by
    rw [steady.globals]
    exact ready.apart
  require := steady.require.trans ready.require
  native := steady.functions _ _ ready.native
  relies := steady.relies ready.relies

theorem Ready.globals_lt {q : Requirer} {s : Machine} (ready : Ready q s) :
    s.globals.index < s.tables.size := by
  by_contra beyond
  cases ready.require.symm.trans (Machine.held_eq_nil_of_le (Nat.le_of_not_lt beyond) "require")

/-- What a call takes of the stack at most. -/
def callRoom : Nat := 300

/-- What is left to a body: calls inside each other, calls of the host, and slots of the stack. -/
structure Roomy (depth : Nat) (s : Machine) : Prop where
  depth : stackLimit ≤ depth + 2 * nestingLimit
  nesting : s.nesting < nestingLimit
  base : s.base ≤ callRoom * nestingLimit
  top : s.top ≤ callRoom * nestingLimit

theorem Roomy.onward {q : Requirer} {depth : Nat} {s t : Machine} (room : Roomy depth s)
    (steady : Steady q s t) : Roomy depth t where
  depth := room.depth
  nesting := by
    rw [steady.nesting]
    exact room.nesting
  base := by
    rw [steady.base]
    exact room.base
  top := by
    rw [steady.top]
    exact room.top

/-- What is left of a call when the body of its function has ended. -/
def Calls.finish (call : Caller) (start fuel : Nat) : Completion → ScriptM (List Value)
  | .values values => return values
  | .call next args => enter call start fuel {} next args

/-- The values of a body that has started on one machine and ended on others. -/
structure Finished (q : Requirer) (own : String) (start t u : Machine) (v : Value)
    (rest : List Value) : Prop where
  quiet : Quiet q t u
  cells : KeepsCells start u
  present : v ≠ .nil
  crosses : ∀ w ∈ v :: rest, w.Crosses
  relies : q.relies (u.entering q.cache own v)

/-- A body that ends like this has values, whatever function takes its place. -/
def Finishes (call : Caller) (q : Requirer) (own : String) (start : Machine) (c : Completion)
    (t : Machine) : Prop :=
  ∀ (place fuel : Nat) (frames : List Frame), place ≤ callRoom * nestingLimit →
    Evaluation.turnLimit = fuel + 1 → ∃ v rest u,
      (Calls.finish call place fuel c).runOn { t with frames } = (.ok (v :: rest), { u with frames }) ∧
        Finished q own start t u v rest

/--
A part of the body of a module that started on one machine, on the machine that it has reached: it
still calls `require` with the given names, one after the other and whatever these calls result in,
and then ends with a value.
-/
inductive Performs (call : Caller) (q : Requirer) (own : String) (start : Machine) :
    List String → ScriptM Completion → Machine → Prop where
  | ends {m : ScriptM Completion} {s t : Machine} {c : Completion} (run : m.runOn s = (.ok c, t))
      (quiet : Quiet q s t) (cells : KeepsCells start t)
      (finishes : Finishes call q own start c t) : Performs call q own start [] m s
  | requires {m : ScriptM Completion} {s t : Machine} {name : String}
      {names : List String} {site : CallSite} {slot : Nat}
      {rest : List Value → ScriptM Completion}
      (run : m.runOn s = (call site (.function q.function) [.text name] >>= rest).runOn t)
      (called : site.slot = some slot) (inside : slot ≤ Grammar.Layout.slotLimit)
      (quiet : Quiet q s t) (cells : KeepsCells start t)
      (onward : ∀ u, Steady q t u → KeepsCells t u → u.held q.cache name ≠ .nil →
        (u.held q.cache name).Crosses →
          Performs call q own start names (rest [u.held q.cache name]) u) :
      Performs call q own start (name :: names) m s

/-- A body may end with one value of its own. -/
theorem Performs.of_value {call : Caller} {q : Requirer} {own : String} {start s t : Machine}
    {m : ScriptM Completion} {v : Value} (run : m.runOn s = (.ok (.values [v]), t))
    (quiet : Quiet q s t) (cells : KeepsCells start t) (present : v ≠ .nil) (crosses : v.Crosses)
    (relies : q.relies (t.entering q.cache own v)) : Performs call q own start [] m s := by
  have single : ∀ w ∈ [v], w.Crosses := by
    rintro w inside
    obtain rfl := List.mem_singleton.1 inside
    exact crosses
  exact .ends run quiet cells fun _ _ _ _ _ =>
    ⟨v, [], t, rfl, .refl q t, cells, present, single, relies⟩

namespace Routine

/-- A run of a routine as the body of a module in a file. -/
def moduleBody (routine : Routine) (call : Caller) (path name : String) (cell : Nat) :
    ScriptM Completion :=
  Evaluation.apply call routine #[cell] (chunkText ("@" ++ path)) [.text name]

/-- A routine that requires the given names in order and then returns a value, if it has room. -/
def Requires (q : Requirer) (routine : Routine) (path name : String) (needed : List String) :
    Prop :=
  ∀ (depth cell : Nat) (s : Machine), Roomy depth s → Ready q s →
    s.cells[cell]? = some (.table s.globals) →
      Performs (Calls.callAt depth) q name s needed
        (routine.moduleBody (Calls.callAt depth) path name cell) s

end Routine

/--
A text that can be read inside fewer calls than a limit, as the body of a module that requires the
given names.
-/
def BodyText (q : Requirer) (limit : Nat) (name path source : String) (needed : List String) :
    Prop :=
  ∀ level < limit, ∃ routine : Routine,
    Routine.ofBytes source.toByteArray ["_ENV"] level = .ok routine ∧
      routine.slots ≤ Grammar.Layout.slotLimit ∧ routine.Requires q path name needed

/-! ## Sets of modules -/

/--
Script modules that a resolver finds, with what their bodies require.  Each of their texts can be
read inside fewer calls than a limit.
-/
structure ModuleSet (q : Requirer) (limit : Nat) where
  graph : ModuleGraph
  index : ModuleIndex
  files : Files
  script : ∀ n needed, graph n = some needed → ∃ path source,
    index.get? n = some (.script path) ∧ files.readText path = .ok source ∧
      BodyText q limit n path source needed
  nowhere : ∀ n, graph n = none → index.get? n = none

/-- Calls can be nested as deep as modules require one another. -/
structure ModuleSet.Fits {q : Requirer} {limit : Nat} (modules : ModuleSet q limit) : Prop where
  limit_lt : limit < nestingLimit
  bounded : ∀ chain, modules.graph.Chain chain → chain.length ≤ limit

/-! ## Names of chunks -/

theorem ofNat_ne_zero {n : Nat} (other : n % 256 ≠ 0) : (0 : UInt8) ≠ .ofNat n := by
  intro same
  have value := congrArg UInt8.toNat same
  rw [UInt8.toNat_ofNat'] at value
  exact other value.symm

/-- Only the character zero has a byte zero. -/
theorem zero_not_mem_utf8EncodeChar {c : Char} (other : c ≠ '\x00') :
    (0 : UInt8) ∉ String.utf8EncodeChar c := by
  have positive : 0 < c.val.toNat := by
    rcases Nat.eq_zero_or_pos c.val.toNat with zero | positive
    · exact absurd (Char.ext (UInt32.toNat_inj.1 zero)) other
    · exact positive
  unfold String.utf8EncodeChar
  dsimp only
  split
  · rw [List.mem_singleton]
    exact ofNat_ne_zero (by omega)
  · split
    · simp only [List.mem_cons, List.not_mem_nil, or_false, not_or]
      exact ⟨ofNat_ne_zero (by omega), ofNat_ne_zero (by omega)⟩
    · split
      · simp only [List.mem_cons, List.not_mem_nil, or_false, not_or]
        exact ⟨ofNat_ne_zero (by omega), ofNat_ne_zero (by omega), ofNat_ne_zero (by omega)⟩
      · simp only [List.mem_cons, List.not_mem_nil, or_false, not_or]
        exact ⟨ofNat_ne_zero (by omega), ofNat_ne_zero (by omega), ofNat_ne_zero (by omega),
          ofNat_ne_zero (by omega)⟩

theorem zero_not_mem_toByteArray {s : String} (free : '\x00' ∉ s.toList) :
    (0 : UInt8) ∉ s.toByteArray.toList := by
  rw [← String.utf8Encode_toList, List.utf8Encode, toList_eq_data_toList,
    List.toList_data_toByteArray, List.mem_flatMap]
  rintro ⟨c, inside, zero⟩
  refine zero_not_mem_utf8EncodeChar ?_ zero
  rintro rfl
  exact free inside

/-- The name of a file that was read can be the name of a chunk. -/
theorem Files.named_of_readText {files : Files} {path text : String}
    (read : files.readText path = .ok text) :
    ("@" ++ path).toByteArray.toList.findIdx? (· == 0) = none := by
  have free : '\x00' ∉ path.toList := by
    intro inside
    have flaw : flaw? path = some .zeroInName := by
      rw [flaw?, if_pos (List.contains_iff_mem.2 inside)]
    rw [readText, readBytes, resolve, flaw] at read
    cases read
  rw [List.findIdx?_eq_none_iff]
  intro b inside
  refine beq_eq_false_iff_ne.2 ?_
  rintro rfl
  exact zero_not_mem_toByteArray (by simpa using free) inside

end ScriptHost
