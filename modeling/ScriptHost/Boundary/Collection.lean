import ScriptHost.Script.Machine

/-!
# Collection

A proxy that nothing leads to any more gives its slot back.  Values lead to the entries and the
metatable of tables, to the variables of functions and to the functions of threads.  The metatable
of a table may ask for weak keys or weak values, which do not count: a pair with a weak key leads to
its value only if something else leads to the key.  What nothing leads to goes out of weak tables.
-/

namespace ScriptHost

namespace Machine

/-- Whether the keys and whether the values of a table are weak. -/
def weakness (s : Machine) (t : Table) : Bool × Bool :=
  match t.metatable.bind fun id => s.tables[id.index]? with
  | none => (false, false)
  | some fields =>
    match fields.get (.text "__mode") with
    | .str bytes => (bytes.data.contains 'k'.toUInt8, bytes.data.contains 'v'.toUInt8)
    | _ => (false, false)

/-- The values that a value leads to by itself. -/
def references (s : Machine) : Value → List Value
  | .table id =>
    let t := s.tables[id.index]?.getD default
    let (weakKeys, weakValues) := s.weakness t
    (if weakKeys then [] else t.live.map (·.1))
      ++ (if weakKeys || weakValues then [] else t.live.map (·.2))
      ++ (t.metatable.map Value.table).toList
  | .function id =>
    match s.functions[id.index]?.getD default with
    | .closure _ outer _ => outer.toList.map fun cell => s.cells[cell]?.getD .nil
    | .native _ => []
  | .thread index => (s.threads[index]?).toList
  | _ => []

/-- Values that live in the machine, so that they can become unreachable; the others cannot. -/
def isObject : Value → Bool
  | .table _ | .function _ | .thread _ | .userdata _ | .fault _ => true
  | _ => false

/-- Whether a value is not among those found. -/
def isLost (found : List Value) (v : Value) : Bool := isObject v && !found.contains v

/-- The values that a table with weak keys leads to together with what was found. -/
def pairReferences (s : Machine) (found : List Value) : Value → List Value
  | .table id =>
    let t := s.tables[id.index]?.getD default
    match s.weakness t with
    | (true, false) => (t.live.filter fun (key, _) => !isLost found key).map (·.2)
    | _ => []
  | _ => []

/--
The values found in some rounds.  A round follows the references of the values that the one before
has found; when they lead nowhere, it follows the pairs of tables with weak keys.
-/
def reach (s : Machine) : Nat → List Value → List Value → List Value
  | 0, found, _ => found
  | rounds + 1, found, last =>
    match ((last.flatMap s.references).filter (isLost found)).eraseDups with
    | [] =>
      match ((found.flatMap (s.pairReferences found)).filter (isLost found)).eraseDups with
      | [] => found
      | new => reach s rounds (new ++ found) new
    | new => reach s rounds (new ++ found) new

/-- What the machine itself holds on to. -/
def roots (s : Machine) : List Value :=
  [.table s.globals, .table s.loaded, .table s.package]
    ++ (s.stringMeta.toList ++ s.streamMeta.toList).map Value.table
    ++ s.resolvers.toList.flatMap fun r =>
      (r.loaded.map Value.table).toList ++ r.preloads.filterMap fun
        | (_, .script f) => some f
        | _ => none

/-- How many values live in the machine. -/
def objectCount (s : Machine) : Nat :=
  s.tables.size + s.functions.size + s.threads.size + s.userdata + s.faults.size

/-- All that the roots and the given values lead to. -/
def reachable (s : Machine) (held : List Value) : List Value :=
  let start := ((s.roots ++ held).filter isObject).eraseDups
  s.reach (s.objectCount + 1) start start

/-- A table without the pairs that are weak on a side whose value was not found. -/
def sweep (s : Machine) (found : List Value) (t : Table) : Table :=
  match s.weakness t with
  | (false, false) => t
  | (weakKeys, weakValues) =>
    t.clear fun key v => (weakKeys && isLost found key) || (weakValues && isLost found v)

/-- Gives back the slots of proxies out of reach. -/
def collect (s : Machine) (held : List Value) : Machine :=
  let found := s.reachable held
  let (kept, dropped) := s.proxies.partition fun (id, _) => found.contains (.table id)
  { s with
    tables := s.tables.map (s.sweep found)
    proxies := kept
    handles := s.handles.map fun slots =>
      dropped.foldl (fun slots (_, slot) => slots.release slot) slots }

end Machine

end ScriptHost
