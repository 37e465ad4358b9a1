import ScriptHost.Settings.Basic
import ScriptHost.Text.Parts
import ScriptHost.Text.Quoted

/-!
# Valid settings

Suffixes begin with a dot and differ, namespaces have names of their own that a script can write,
and dialect modules are dotted names.
-/

namespace ScriptHost

/-- What is wrong with settings. -/
inductive InvalidSetting where
  | suffix (key value : String)
  | sameSuffix
  | namespaceName (name : String)
  | namespaceTaken (name : String)
  | dialectModule (name : String)
deriving DecidableEq, Repr

def InvalidSetting.message : InvalidSetting → String
  | .suffix key value => s!"Invalid module {key}: {quoted value}"
  | .sameSuffix => "Script and native module suffixes must differ"
  | .namespaceName name => s!"Invalid namespace name: {quoted name}"
  | .namespaceTaken name => s!"Namespace name already in use: {name}"
  | .dialectModule name => s!"Invalid dialect module name: {quoted name}"

/-- Letters, digits and underscores, no digit in front. -/
def isIdentifier (name : String) : Bool :=
  match name.toList with
  | [] => false
  | first :: rest =>
    (first == '_' || first.isAlpha) && rest.all fun c => c == '_' || c.isAlphanum

/-- The globals that every run installs itself. -/
def reservedGlobals : List String := ["ctx", "client", "print", "log", "require"]

def isSuffix (suffix : String) : Bool := suffix.toList.head? == some '.' && suffix.utf8ByteSize ≥ 2

namespace ModuleSettings

def validate (m : ModuleSettings) : Except InvalidSetting Unit :=
  if !isSuffix m.suffix then .error (.suffix "suffix" m.suffix)
  else if !isSuffix m.nativeSuffix then .error (.suffix "native_suffix" m.nativeSuffix)
  else if m.suffix = m.nativeSuffix then .error .sameSuffix
  else .ok ()

end ModuleSettings

namespace BindingSettings

/-- Checks namespaces in order; `taken` are the names in use before them. -/
def validateNamespaces (taken : List String) : List NamespaceSettings → Except InvalidSetting Unit
  | [] => .ok ()
  | ns :: rest =>
    if !isIdentifier ns.name then .error (.namespaceName ns.name)
    else if ns.name ∈ taken then .error (.namespaceTaken ns.name)
    else validateNamespaces (ns.name :: taken) rest

def validate (b : BindingSettings) : Except InvalidSetting Unit :=
  validateNamespaces reservedGlobals b.namespaces

end BindingSettings

namespace DialectSettings

def isModuleName (name : String) : Bool := (splitText '.' name).all isIdentifier

def validate (d : DialectSettings) : Except InvalidSetting Unit :=
  if !isModuleName d.parseModule then .error (.dialectModule d.parseModule)
  else if !isModuleName d.compileModule then .error (.dialectModule d.compileModule)
  else .ok ()

end DialectSettings

namespace Settings

def validate (s : Settings) : Except InvalidSetting Unit := do
  s.modules.validate
  s.binding.validate
  s.dialect.validate

end Settings

end ScriptHost
