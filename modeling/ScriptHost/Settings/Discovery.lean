import ScriptHost.Files.Tree
import ScriptHost.Settings.Json
import ScriptHost.Settings.Toml.Printer
import ScriptHost.Settings.Toml.Reader
import ScriptHost.Settings.Validity

/-!
# Finding settings

Settings come from a file of the working directory or of the user, whichever can be read first, or
are the defaults; variables of the environment have the last word.
-/

namespace ScriptHost

/-- Why settings could not be had. -/
inductive SettingsError where
  | file (cause : FileError)
  | malformed
  | invalid (what : InvalidSetting)
deriving DecidableEq, Repr

def SettingsError.message : SettingsError → String
  | .file cause => "Config file error: " ++ cause.message
  | .malformed => "Config parse error"
  | .invalid what => "Config validation error: " ++ what.message

/-- The formats of settings files. -/
inductive SettingsFormat where
  | json
  | toml
deriving DecidableEq, Repr

namespace SettingsFormat

def read? : SettingsFormat → String → Option Settings
  | json => Settings.ofJson?
  | toml => Settings.ofToml?

def write : SettingsFormat → Settings → String
  | json => Settings.toJson
  | toml => Settings.toToml

end SettingsFormat

namespace Settings

def ofText (format : SettingsFormat) (text : String) : Except SettingsError Settings :=
  match format.read? text with
  | some s => .ok s
  | none => .error .malformed

def ofFile (files : Files) (format : SettingsFormat) (path : String) :
    Except SettingsError Settings :=
  match files.readText path with
  | .ok text => ofText format text
  | .error cause => .error (.file cause)

/-- Writes settings to a file. -/
def save (s : Settings) (files : Files) (format : SettingsFormat) (path : String) :
    Except SettingsError Files :=
  match files.write path (format.write s).toByteArray with
  | .ok files => .ok files
  | .error cause => .error (.file cause)

/-- What a variable of the environment changes; a value without meaning changes nothing. -/
def override (s : Settings) (name value : String) : Settings :=
  match name with
  | "HOSTLUA_LUA_PATH" => { s with modules := { s.modules with path := some value } }
  | "HOSTLUA_LUA_CPATH" => { s with modules := { s.modules with cpath := some value } }
  | "HOSTLUA_NATIVE_MODULES" =>
    match ([("true", true), ("false", false)] : List (String × Bool)).lookup value with
    | some b => { s with modules := { s.modules with nativeModules := b } }
    | none => s
  | "HOSTLUA_ASSIGN_POLICY" =>
    match AssignPolicy.ofText? value with
    | some policy => { s with binding := { s.binding with assignPolicy := policy } }
    | none => s
  | "HOSTLUA_LOG_LEVEL" =>
    match LogLevel.ofText? value with
    | some level => { s with logging := { s.logging with level } }
    | none => s
  | _ => s

/-- Lets the variables of the environment change settings. -/
def overrideAll (s : Settings) (environment : Variables) : Settings :=
  environment.foldl (fun s (name, value) => s.override name value) s

/-- The directory of the user's settings; a home without a name is none. -/
def userDirectory? (environment : Variables) : Option String :=
  match (environment.lookup "XDG_CONFIG_HOME").filter Path.isAbsolute with
  | some directory => some directory
  | none =>
    ((environment.lookup "HOME").filter (· ≠ "")).map fun home => Path.join home ".config"

/-- The files that may hold settings, in order. -/
def places (environment : Variables) : List (SettingsFormat × String) :=
  [(.toml, "hostlua.toml"), (.json, "hostlua.json")]
    ++ ((userDirectory? environment).map fun directory =>
      (.toml, Path.join (Path.join directory "hostlua") "config.toml")).toList

/-- The settings of the first file that can be read, or the defaults. -/
def find (files : Files) (environment : Variables) : Settings :=
  ((places environment).findSome? fun (format, path) => (ofFile files format path).toOption).getD {}

def discover (files : Files) (environment : Variables) : Settings :=
  (find files environment).overrideAll environment

end Settings

end ScriptHost
