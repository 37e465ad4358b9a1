import ScriptHost.Host.Convert

/-!
# Classes, methods and free functions

A class is a shape with its methods and the fields of a fresh object.  A method holds its receiver
while it runs.  The declared number of arguments does not count the receiver; of free functions it
is a remark only.
-/

namespace ScriptHost

structure HostMethod where
  name : String
  arity : Nat
  call : ObjectId → List HostValue → HostM (List HostValue)

structure HostClass where
  shape : Shape
  methods : List HostMethod := []
  /-- The stored values of a fresh object. -/
  initial : List Datum

structure HostFunction where
  package : String
  name : String
  arity : Nat
  call : List HostValue → HostM (List HostValue)

namespace HostMethod

/-- Short form for descriptions. -/
def text (m : HostMethod) : String := s!"{m.name}/{m.arity}"

end HostMethod

namespace HostClass

def fullName (c : HostClass) : String := c.shape.fullName

def method? (c : HostClass) (name : String) : Option HostMethod :=
  c.methods.find? (·.name = name)

/-- A fresh object with the default fields. -/
def construct (c : HostClass) : HostM ObjectId := HostM.newObject c.shape c.initial

def fieldDescription (f : Field) : String :=
  "FieldInfo \x7b name: " ++ quoted f.name ++ ", kind: " ++ f.kind.label ++ ", public: "
    ++ toString f.isPublic ++ " \x7d"

/-- The class as developers see it. -/
def description (c : HostClass) : String :=
  "TypeInfo \x7b name: " ++ quoted c.fullName
    ++ ", fields: [" ++ ", ".intercalate (c.shape.fields.map fieldDescription)
    ++ "], methods: [" ++ ", ".intercalate (c.methods.map HostMethod.text) ++ "] \x7d"

end HostClass

namespace HostFunction

def fullName (f : HostFunction) : String := qualified f.package f.name

/-- Short form for descriptions. -/
def text (f : HostFunction) : String := s!"{f.fullName}/{f.arity}"

end HostFunction

/-- How the objects of a shape are read as, and written back from, a type of the host. -/
structure Layout (α : Type) where
  shape : Shape
  fields : α → List Datum
  ofFields : List Datum → α

namespace Layout

variable {α : Type}

def new (layout : Layout α) (a : α) : HostM ObjectId :=
  HostM.newObject layout.shape (layout.fields a)

/--
Runs `body` on the receiver while holding it exclusively and writes the result back.  A receiver
of another type is refused after it was found free.
-/
def onReceiver {β : Type} (layout : Layout α) (id : ObjectId) (body : α → HostM (β × α)) :
    HostM β := do
  let i ← HostM.writable id
  if i.shape.Is layout.shape then do
    let (result, changed) ← HostM.holding id .exclusive (body (layout.ofFields i.fields))
    HostM.setFields id (layout.fields changed)
    return result
  else HostM.fail (.receiver i.shape.name)

def method (layout : Layout α) (name : String) (arity : Nat)
    (body : α → List HostValue → HostM (List HostValue × α)) : HostMethod where
  name
  arity
  call id args := layout.onReceiver id fun a => body a args

end Layout

end ScriptHost
