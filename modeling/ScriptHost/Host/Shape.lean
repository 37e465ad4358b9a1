/-!
# Shapes of host objects

A shape says which fields an object has: their declared kind, whether scripts may see them, and how
they are stored.  The declared kind decides what scripts may assign, the storage what is kept.
-/

namespace ScriptHost

/-- The declared kind of a field. -/
inductive FieldKind where
  | str
  | int
  | float
  | bool
  | list
  | map
  | struct
  | ptr
  | foreign
deriving DecidableEq, Repr

namespace FieldKind

/-- The name in messages. -/
def name : FieldKind → String
  | str => "string"
  | int => "int"
  | float => "float"
  | bool => "bool"
  | list => "slice"
  | map => "map"
  | struct => "struct"
  | ptr => "ptr"
  | foreign => "opaque"

/-- The name in descriptions of types. -/
def label : FieldKind → String
  | str => "Str"
  | int => "Int"
  | float => "Float"
  | bool => "Bool"
  | list => "List"
  | map => "Map"
  | struct => "Struct"
  | ptr => "Ptr"
  | foreign => "Opaque"

/-- Scripts assign scalars only. -/
def isAssignable : FieldKind → Bool
  | str | int | float | bool => true
  | _ => false

end FieldKind

mutual

/-- How a value is stored in a field or passed to a host function. -/
inductive Storage where
  | bool
  | int64
  | int32
  /-- An unsigned sixty-four bit word. -/
  | size
  | float
  /-- A single-precision number. -/
  | single
  | text
  /-- A shared object. -/
  | object
  /-- Any host value. -/
  | any
  /-- The fields of an object, copied in and out. -/
  | record (shape : Shape)
  | option (content : Storage)
  | list (item : Storage)
  /-- Text keys in ascending order. -/
  | map (item : Storage)

structure Field where
  name : String
  kind : FieldKind
  isPublic : Bool
  storage : Storage

/-- The fields of a type of objects, in order of declaration. -/
structure Shape where
  name : String
  package : String
  fields : List Field

end

/-- A name inside a package; the empty package adds nothing. -/
def qualified (package name : String) : String :=
  if package = "" then name else package ++ "::" ++ name

namespace Field

def visible (name : String) (kind : FieldKind) (storage : Storage) : Field :=
  ⟨name, kind, true, storage⟩

/-- Private fields have no declared kind. -/
def hidden (name : String) (storage : Storage) : Field := ⟨name, .foreign, false, storage⟩

end Field

namespace Shape

instance : Inhabited Shape := ⟨⟨"", "", []⟩⟩

def fullName (shape : Shape) : String := qualified shape.package shape.name

/-- A type is known by its package and name. -/
def Is (a b : Shape) : Prop := a.package = b.package ∧ a.name = b.name

instance (a b : Shape) : Decidable (a.Is b) := inferInstanceAs (Decidable (_ ∧ _))

def field? (shape : Shape) (name : String) : Option Field :=
  shape.fields.find? (·.name = name)

def publicField? (shape : Shape) (name : String) : Option Field :=
  (shape.field? name).filter (·.isPublic)

end Shape

end ScriptHost
