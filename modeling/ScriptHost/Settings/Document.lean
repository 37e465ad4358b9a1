import ScriptHost.Settings.Basic

/-!
# Settings as documents

Settings are written as a document of named sections.  A section that is missing, or a key missing
in it, has its default; unknown keys do not matter.  A section may also be a list of its values in
order.  Formats differ in small ways, which their rules tell.
-/

namespace ScriptHost

inductive Document where
  | null
  | bool (b : Bool)
  | text (s : String)
  /-- A value that no setting takes, such as a number or a date. -/
  | other
  | list (items : List Document)
  | object (entries : List (String × Document))
deriving Inhabited

/-- What formats differ in. -/
structure DocumentRules where
  /-- Whether a section written as a list may have more items than there are keys. -/
  extraItems : Bool
  /-- What may stand beside a name that is written as a key. -/
  isUnit : Document → Bool

namespace Document

section

variable (rules : DocumentRules)

/-- The documents under the keys of a section; a key may be there once only. -/
def slots (keys : List String) : Document → Option (List (Option Document))
  | .list items =>
    if items.length ≤ keys.length ∨ rules.extraItems then
      some (items.map some ++ List.replicate (keys.length - items.length) none)
    else none
  | .object entries =>
    if keys.all fun key => (entries.filter fun entry => entry.1 == key).length ≤ 1 then
      some (keys.map fun key => entries.lookup key)
    else none
  | _ => none

/-- The value in a slot, or the default of an empty one. -/
def orDefault {α : Type} (default : α) (read : Document → Option α) : Option Document → Option α
  | none => some default
  | some d => read d

def asBool : Document → Option Bool
  | .bool b => some b
  | _ => none

def asText : Document → Option String
  | .text s => some s
  | _ => none

def asNullableText : Document → Option (Option String)
  | .null => some none
  | .text s => some (some s)
  | _ => none

def asList {α : Type} (read : Document → Option α) : Document → Option (List α)
  | .list items => items.mapM read
  | _ => none

/-- A name out of a fixed choice, as a text or as the only key of an object. -/
def asChoice {α : Type} (names : List (String × α)) : Document → Option α
  | .text s => names.lookup s
  | .object [(s, unit)] => if rules.isUnit unit then names.lookup s else none
  | _ => none

def policyNames : List (String × AssignPolicy) :=
  [AssignPolicy.lenient, .strict].map fun policy => (policy.name, policy)

def levelNames : List (String × LogLevel) := LogLevel.all.map fun level => (level.directive, level)

def moduleKeys : List String := ["path_var", "cpath_var", "path", "cpath", "suffix",
  "native_suffix", "include_cwd", "native_modules"]

def asModules (d : Document) : Option ModuleSettings := do
  let other : ModuleSettings := {}
  match ← slots rules moduleKeys d with
  | pathVar :: cpathVar :: path :: cpath :: suffix :: nativeSuffix :: includeCwd :: nativeModules
      :: _ =>
    return {
      pathVar := ← orDefault other.pathVar asText pathVar
      cpathVar := ← orDefault other.cpathVar asText cpathVar
      path := ← orDefault other.path asNullableText path
      cpath := ← orDefault other.cpath asNullableText cpath
      suffix := ← orDefault other.suffix asText suffix
      nativeSuffix := ← orDefault other.nativeSuffix asText nativeSuffix
      includeCwd := ← orDefault other.includeCwd asBool includeCwd
      nativeModules := ← orDefault other.nativeModules asBool nativeModules }
  | _ => none

/-- Both keys of a namespace must be there. -/
def asNamespace (d : Document) : Option NamespaceSettings := do
  match ← slots rules ["name", "package"] d with
  | some name :: some package :: _ => return ⟨← asText name, ← asText package⟩
  | _ => none

def asBinding (d : Document) : Option BindingSettings := do
  let other : BindingSettings := {}
  match ← slots rules ["assign_policy", "namespaces"] d with
  | policy :: namespaces :: _ =>
    return {
      assignPolicy := ← orDefault other.assignPolicy (asChoice rules policyNames) policy
      namespaces := ← orDefault other.namespaces (asList (asNamespace rules)) namespaces }
  | _ => none

def asBridge (d : Document) : Option BridgeSettings := do
  let other : BridgeSettings := {}
  match ← slots rules ["modules"] d with
  | modules :: _ => return { modules := ← orDefault other.modules (asList asText) modules }
  | _ => none

def asDialect (d : Document) : Option DialectSettings := do
  let other : DialectSettings := {}
  match ← slots rules ["parse_module", "compile_module"] d with
  | parseModule :: compileModule :: _ =>
    return {
      parseModule := ← orDefault other.parseModule asText parseModule
      compileModule := ← orDefault other.compileModule asText compileModule }
  | _ => none

def asLogging (d : Document) : Option LoggingSettings := do
  let other : LoggingSettings := {}
  match ← slots rules ["level", "ansi"] d with
  | level :: ansi :: _ =>
    return {
      level := ← orDefault other.level (asChoice rules levelNames) level
      ansi := ← orDefault other.ansi asBool ansi }
  | _ => none

def asSettings (d : Document) : Option Settings := do
  let other : Settings := {}
  match ← slots rules ["modules", "binding", "bridge", "dialect", "logging"] d with
  | modules :: binding :: bridge :: dialect :: logging :: _ =>
    return {
      modules := ← orDefault other.modules (asModules rules) modules
      binding := ← orDefault other.binding (asBinding rules) binding
      bridge := ← orDefault other.bridge (asBridge rules) bridge
      dialect := ← orDefault other.dialect (asDialect rules) dialect
      logging := ← orDefault other.logging (asLogging rules) logging }
  | _ => none

end

def ofNullable : Option String → Document
  | some s => .text s
  | none => .null

def ofModules (m : ModuleSettings) : Document := .object [
  ("path_var", .text m.pathVar),
  ("cpath_var", .text m.cpathVar),
  ("path", ofNullable m.path),
  ("cpath", ofNullable m.cpath),
  ("suffix", .text m.suffix),
  ("native_suffix", .text m.nativeSuffix),
  ("include_cwd", .bool m.includeCwd),
  ("native_modules", .bool m.nativeModules)]

def ofNamespace (ns : NamespaceSettings) : Document :=
  .object [("name", .text ns.name), ("package", .text ns.package)]

def ofBinding (b : BindingSettings) : Document := .object [
  ("assign_policy", .text b.assignPolicy.name),
  ("namespaces", .list (b.namespaces.map ofNamespace))]

def ofBridge (b : BridgeSettings) : Document := .object [("modules", .list (b.modules.map .text))]

def ofDialect (d : DialectSettings) : Document :=
  .object [("parse_module", .text d.parseModule), ("compile_module", .text d.compileModule)]

def ofLogging (l : LoggingSettings) : Document :=
  .object [("level", .text l.level.directive), ("ansi", .bool l.ansi)]

/-- Settings as a document with every key. -/
def ofSettings (s : Settings) : Document := .object [
  ("modules", ofModules s.modules),
  ("binding", ofBinding s.binding),
  ("bridge", ofBridge s.bridge),
  ("dialect", ofDialect s.dialect),
  ("logging", ofLogging s.logging)]

end Document

end ScriptHost
