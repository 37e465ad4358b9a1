import ScriptHost.Host.Class

/-!
# The registry

Full names lead to classes and free functions.  A second index lists the full names of each package
in the order in which they were first registered.  A name registered again keeps its place and
takes the later entry; a strict build refuses it.
-/

namespace ScriptHost

inductive Entry where
  | type (info : HostClass)
  | function (info : HostFunction)

namespace Entry

def name : Entry → String
  | type info => info.shape.name
  | function info => info.name

def package : Entry → String
  | type info => info.shape.package
  | function info => info.package

def fullName (e : Entry) : String := qualified e.package e.name

end Entry

inductive RegistryError where
  | alreadyInstalled
  | duplicate (name : String)
deriving DecidableEq, Repr

def RegistryError.message : RegistryError → String
  | .alreadyInstalled => "type registry already initialised"
  | .duplicate name => s!"duplicate registry entry: {name}"

/-- Sets the value of a key in a list of pairs, in its place if it is there and else at the end. -/
def setPair {α : Type} (key : String) (a : α) : List (String × α) → List (String × α)
  | [] => [(key, a)]
  | (other, old) :: rest =>
    if other = key then (key, a) :: rest else (other, old) :: setPair key a rest

structure Registry where
  entries : List (String × Entry) := []
  /-- Full names by package, in order of first registration. -/
  packages : List (String × List String) := []

namespace Registry

def get? (r : Registry) (fullName : String) : Option Entry := r.entries.lookup fullName

def class? (r : Registry) (fullName : String) : Option HostClass :=
  match r.get? fullName with
  | some (.type info) => some info
  | _ => none

def function? (r : Registry) (fullName : String) : Option HostFunction :=
  match r.get? fullName with
  | some (.function info) => some info
  | _ => none

/-- The entries of a package in order of registration. -/
def package (r : Registry) (name : String) : List Entry :=
  ((r.packages.lookup name).getD []).filterMap r.get?

def size (r : Registry) : Nat := r.entries.length

def isEmpty (r : Registry) : Bool := r.entries.isEmpty

end Registry

/-- A registry in the making, with the names registered more than once. -/
structure Registrations where
  registry : Registry := {}
  duplicates : List String := []

namespace Registrations

def register (b : Registrations) (e : Entry) : Registrations :=
  let name := e.fullName
  let known := (b.registry.get? name).isSome
  let entries := setPair name e b.registry.entries
  if known then
    { registry := { b.registry with entries }, duplicates := b.duplicates ++ [name] }
  else
    let names := (b.registry.packages.lookup e.package).getD []
    { b with registry :=
        { entries, packages := setPair e.package (names ++ [name]) b.registry.packages } }

def registerAll (b : Registrations) (entries : List Entry) : Registrations :=
  entries.foldl register b

def toRegistry (b : Registrations) : Registry := b.registry

/-- Refuses the first name that was registered twice. -/
def toRegistry? (b : Registrations) : Except RegistryError Registry :=
  match b.duplicates with
  | [] => .ok b.registry
  | name :: _ => .error (.duplicate name)

end Registrations

/-- The registry shared by a whole program: it is set once, on first use at the latest. -/
structure SharedRegistry where
  installed : Option Registry := none

namespace SharedRegistry

/-- The shared registry, set to `fallback` if nothing was installed before. -/
def get (s : SharedRegistry) (fallback : Registry) : Registry × SharedRegistry :=
  match s.installed with
  | some r => (r, s)
  | none => (fallback, ⟨some fallback⟩)

def install (s : SharedRegistry) (r : Registry) : Except RegistryError SharedRegistry :=
  match s.installed with
  | some _ => .error .alreadyInstalled
  | none => .ok ⟨some r⟩

end SharedRegistry

end ScriptHost
