import ScriptHost.Number.Binary64

/-!
# Host values

The values that a host program holds.  Structures and pointers both refer to an object by its
identity; they differ in how scripts see them.
-/

namespace ScriptHost

/-- The identity of a host object. -/
structure ObjectId where
  index : Nat
deriving DecidableEq, Inhabited, Repr

inductive HostValue where
  | nil
  | bool (b : Bool)
  | int (i : Int64)
  | float (x : Binary64)
  | str (s : String)
  | list (items : List HostValue)
  /-- Pairs in order; keys may repeat. -/
  | map (pairs : List (HostValue × HostValue))
  | struct (object : ObjectId)
  | ptr (object : Option ObjectId)
  /-- A value that scripts have no form for, known by its kind alone. -/
  | foreign (kind : String)
deriving Inhabited

namespace HostValue

def kind : HostValue → String
  | nil => "nil"
  | bool _ => "bool"
  | int _ => "int"
  | float _ => "float"
  | str _ => "string"
  | list _ => "slice"
  | map _ => "map"
  | struct _ => "struct"
  | ptr _ => "ptr"
  | foreign kind => kind

def isNil : HostValue → Bool
  | nil => true
  | _ => false

/-- The object behind a structure or a pointer that is not nil. -/
def object? : HostValue → Option ObjectId
  | struct object => some object
  | ptr object => object
  | _ => none

def text? : HostValue → Option String
  | str s => some s
  | _ => none

def int? : HostValue → Option Int64
  | int i => some i
  | _ => none

/-- The first value of a map under a text key. -/
def get? (key : String) : HostValue → Option HostValue
  | map pairs => pairs.findSome? fun (k, v) => if k.text? = some key then some v else none
  | _ => none

mutual

/-- Objects are equal by identity, numbers numerically and within their kind, the rest by form. -/
def equals : HostValue → HostValue → Bool
  | nil, nil => true
  | bool a, bool b => a == b
  | int a, int b => a == b
  | float a, float b => a.equals b
  | str a, str b => a == b
  | list a, list b => equalLists a b
  | map a, map b => equalPairs a b
  | struct a, struct b => a == b
  | ptr a, ptr b => a == b
  | foreign a, foreign b => a == b
  | _, _ => false

def equalLists : List HostValue → List HostValue → Bool
  | [], [] => true
  | a :: as, b :: bs => equals a b && equalLists as bs
  | _, _ => false

def equalPairs : List (HostValue × HostValue) → List (HostValue × HostValue) → Bool
  | [], [] => true
  | (ak, av) :: as, (bk, bv) :: bs => equals ak bk && equals av bv && equalPairs as bs
  | _, _ => false

end

end HostValue

end ScriptHost
