import ScriptHost.Boundary.Published
import ScriptHost.Script.Interpreter

/-!
# Snapshots

A library that only an interpreter of its own can load is brought over as data: its table is copied
with all that it holds, and its functions are kept by number in the guest that met them.
-/

namespace ScriptHost

/-- A function of a guest: its number there, and where in its module it was met. -/
structure GuestFunction where
  index : Nat
  path : String
deriving DecidableEq, Inhabited, Repr

/-- A copy of a value of another interpreter. -/
inductive Snapshot where
  | nil
  | bool (b : Bool)
  | int (i : Int64)
  | float (x : Binary64)
  | str (s : String)
  | table (entries : List (Snapshot × Snapshot))
  | function (handle : GuestFunction)
deriving Inhabited

namespace Snapshot

def text : Snapshot → String
  | nil => "nil"
  | bool b => toString b
  | int i => toString i.toInt
  | float x => x.hostText
  | str s => quoted s
  | table entries => s!"table({entries.length} entries)"
  | function handle => s!"function: {handle.path}"

/-- The value as part of a path. -/
def pathPart : Snapshot → String
  | str s => s
  | v => v.text

def isNil : Snapshot → Bool
  | nil => true
  | _ => false

/-- The first entry of a table under a text. -/
def get? (key : String) : Snapshot → Option Snapshot
  | table entries => entries.findSome? fun
    | (str s, v) => if s = key then some v else none
    | _ => none
  | _ => none

def function? : Snapshot → Option GuestFunction
  | function handle => some handle
  | _ => none

end Snapshot

abbrev BridgeM := MachineM BridgeError

/-- A computation that collects the functions it meets, also when it fails. -/
abbrev SnapshotM := ExceptT (Stop BridgeError) (StateM (List Value))

namespace Snapshot

open MachineM

def collect (f : Value) (path : String) : SnapshotM Snapshot :=
  modifyGet fun functions => (.function ⟨functions.length, path⟩, functions ++ [f])

section

variable (copy : String → Value → SnapshotM Snapshot)

/-- The copies of the entries of a table; those without a value are left out. -/
def entries (path : String) : List (Value × Value) → SnapshotM (List (Snapshot × Snapshot))
  | [] => return []
  | (k, v) :: rest => do
    let k ← copy path k
    let v ← copy (path ++ "." ++ k.pathPart) v
    let rest ← entries path rest
    return if v.isNil then rest else (k, v) :: rest

end

/--
The copy of a value inside the given tables.  A table inside itself is left out, so tables lie no
deeper in each other than there are tables.
-/
def take (s : Machine) : Nat → List TableId → String → Value → SnapshotM Snapshot
  | _, _, _, .nil => return .nil
  | _, _, _, .bool b => return .bool b
  | _, _, _, .int i => return .int i
  | _, _, _, .float x =>
    match x.toInt64? with
    | some i => return .int i
    | none => return .float x
  | _, _, _, .str bytes => return .str (Utf8.decode bytes)
  | _, _, path, .function id => collect (.function id) path
  | depth, passed, path, .table id =>
    if id ∈ passed then return .nil
    else
      match depth with
      | 0 => return .nil
      | depth + 1 => do
        let live := (s.tables[id.index]?.getD default).live
        return .table (← entries (take s depth (id :: passed)) path live)
  | _, _, path, .thread _ => throw (.error (.thread path))
  | _, _, path, v => throw (.error (.unsupported path v.hostType))

mutual

/-- The script value that a snapshot is of; functions become placeholders. -/
def rebuild : Snapshot → BridgeM Value
  | .nil => return .nil
  | .bool b => return .bool b
  | .int i => return .int i
  | .float x => return .float x
  | .str s => return .text s
  | .table entries => do
    let id ← newTable
    rebuildEntries id entries
    return .table id
  | .function handle => newNative (.placeholder handle.path)

def rebuildEntries (id : TableId) : List (Snapshot × Snapshot) → BridgeM Unit
  | [] => pure ()
  | (k, v) :: rest => do
    let k ← rebuild k
    let v ← rebuild v
    if Table.isKey k then rawSet id k v
    else fail (.script (.runtime (if k.isNil then "table index is nil" else "table index is NaN")))
    rebuildEntries id rest

end

end Snapshot

end ScriptHost
