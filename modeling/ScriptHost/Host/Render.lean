import ScriptHost.Host.Object
import ScriptHost.Number.Digits
import ScriptHost.Text.Quoted

/-!
# Texts of host values

A list is shown in brackets, a map as `map[key:value …]`, an object as its type with its public
fields in braces, a pointer with `&` before its object.  An object that a writer holds shows no
fields.  Objects may lead back to themselves through pointers; then there is no text.
-/

namespace ScriptHost

namespace Render

def spaced (items : List String) : String := " ".intercalate items

def braced (type content : String) : String := type ++ "\x7b" ++ content ++ "\x7d"

section

variable (object : ObjectId → Option String)

mutual

/-- The text of a value, given the texts of objects. -/
def value : HostValue → Option String
  | .nil => some "nil"
  | .bool b => some (toString b)
  | .int i => some (toString i.toInt)
  | .float x => some x.hostText
  | .str s => some s
  | .list items => do return "[" ++ spaced (← values items) ++ "]"
  | .map pairs => do return "map[" ++ spaced (← valuePairs pairs) ++ "]"
  | .struct id => object id
  | .ptr (some id) => do return "&" ++ (← object id)
  | .ptr none => some "<nil>"
  | .foreign kind => some ("<" ++ kind ++ ">")

def values : List HostValue → Option (List String)
  | [] => some []
  | item :: rest => do
    let text ← value item
    return text :: (← values rest)

def valuePairs : List (HostValue × HostValue) → Option (List String)
  | [] => some []
  | (key, item) :: rest => do
    let keyText ← value key
    let itemText ← value item
    return (keyText ++ ":" ++ itemText) :: (← valuePairs rest)

end

mutual

/-- The text of a stored value, the same as that of the host value it is read as. -/
def datum : Datum → Option String
  | .bool b => some (toString b)
  | .int i => some (toString i.toInt)
  | .size n => some (toString n.toInt64.toInt)
  | .float x => some x.hostText
  | .text s => some s
  | .object id => do return "&" ++ (← object id)
  | .any v => value object v
  | .record shape data => do
    return braced shape.name (spaced (← fields shape.fields data))
  | .absent => some "nil"
  | .present content => datum content
  | .list items => do return "[" ++ spaced (← data items) ++ "]"
  | .map items => do return "map[" ++ spaced (← entries items) ++ "]"

def data : List Datum → Option (List String)
  | [] => some []
  | item :: rest => do
    let text ← datum item
    return text :: (← data rest)

def entries : List (String × Datum) → Option (List String)
  | [] => some []
  | (key, item) :: rest => do
    let text ← datum item
    return (key ++ ":" ++ text) :: (← entries rest)

/-- The public ones of the fields, each as `name:value`. -/
def fields (declared : List Field) : List Datum → Option (List String)
  | [] => some []
  | item :: rest =>
    match declared with
    | [] => some []
    | field :: declared =>
      if field.isPublic then do
        let text ← datum item
        return (field.name ++ ":" ++ text) :: (← fields declared rest)
      else fields declared rest

end

end

/--
The text of an object whose fields lead through fewer than `depth` objects.  A longer way through
`depth` objects passes one of them twice, so its text would never end.  Only objects of the heap have
texts.
-/
def object (objects : Objects) : Nat → ObjectId → Option String
  | 0, _ => none
  | depth + 1, id =>
    match objects.instances[id.index]? with
    | none => none
    | some i =>
      if i.hold = .exclusive then some (braced i.shape.name "..")
      else do
        return braced i.shape.name (spaced (← fields (object objects depth) i.shape.fields i.fields))

end Render

namespace Objects

/-- The text of an object; `none` if it never ends. -/
def objectText (objects : Objects) (id : ObjectId) : Option String :=
  Render.object objects objects.size id

/-- The text of a value; `none` if it never ends. -/
def text (objects : Objects) (v : HostValue) : Option String :=
  Render.value objects.objectText v

/-- The text of a value for developers: texts are quoted, objects are named by their form. -/
def debugText (objects : Objects) (v : HostValue) : Option String :=
  match v with
  | .str s => some (quoted s)
  | .struct id => do return "Struct(" ++ (← objects.objectText id) ++ ")"
  | .ptr (some id) => do return "Ptr(" ++ (← objects.objectText id) ++ ")"
  | v => objects.text v

end Objects

namespace HostM

/-- The text of a value; a text without an end is never finished. -/
def textOf (v : HostValue) : HostM String := do
  match (← get).text v with
  | some text => return text
  | none => throw .endless

end HostM

end ScriptHost
