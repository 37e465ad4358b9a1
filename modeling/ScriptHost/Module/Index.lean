import ScriptHost.Files.Tree
import ScriptHost.Host.Registry
import ScriptHost.Module.Roots
import ScriptHost.Settings.Basic

/-!
# The module index

Dotted names lead to files.  A file below a root has the name of its place, without the suffix; an
`init` file has the name of its directory.  Earlier roots win over later ones, and inside a root a
plain file wins over an `init` file.
-/

namespace ScriptHost

/-- The file of a module. -/
inductive ModuleFile where
  | script (path : String)
  | native (path : String)
deriving DecidableEq, Inhabited, Repr

namespace ModuleFile

def path : ModuleFile → String
  | script path | native path => path

end ModuleFile

/-- A file that may define a module. -/
structure Candidate where
  path : String
  /-- Whether the file stands for its directory. -/
  isInit : Bool
deriving DecidableEq, Repr

/-- The name of the module in a file, and whether the file stands for its directory. -/
def moduleName? (suffix : String) (directories : List String) (file : String) :
    Option (String × Bool) :=
  match stripSuffix? suffix file with
  | none => none
  | some stem =>
    let isInit := stem == "init"
    let parts := if isInit then directories else directories ++ [stem]
    if parts.isEmpty || parts.contains "" then none else some (".".intercalate parts, isInit)

/-- The candidates found below one root, by module name. -/
abbrev Found := List (String × Candidate)

namespace Found

/-- A plain file replaces an `init` file; otherwise the first one found stays. -/
def add (found : Found) (name : String) (candidate : Candidate) : Found :=
  match found.lookup name with
  | none => found ++ [(name, candidate)]
  | some old => if old.isInit && !candidate.isInit then setPair name candidate found else found

def addFile (suffix path : String) (directories : List String) (file : String) (found : Found) :
    Found :=
  match moduleName? suffix directories file with
  | some (name, isInit) => found.add name ⟨path, isInit⟩
  | none => found

end Found

mutual

/--
Walks the entries of a directory.  Real directories are entered, and of the rest counts what leads to
a file.  A path that is too long leads nowhere, and neither do the paths that go on from it.
-/
def walkEntries (files : Files) (suffix directory : String) (directories : List String) :
    List (String × Node) → Found → Found
  | [], found => found
  | (name, node) :: rest, found =>
    walkEntries files suffix directory directories rest
      (walkNode files suffix (Path.join directory name) directories name node found)

def walkNode (files : Files) (suffix path : String) (directories : List String) (name : String) :
    Node → Found → Found
  | .directory entries, found => walkEntries files suffix path (directories ++ [name]) entries found
  | .file _, found | .link _, found =>
    if files.isFile path then found.addFile suffix path directories name else found

end

/-- The candidates below a root; a root that cannot be read has none. -/
def candidates (files : Files) (suffix root : String) : Found :=
  match files.entries? root with
  | some entries => walkEntries files suffix root [] entries []
  | none => []

structure ModuleIndex where
  modules : List (String × ModuleFile) := []
deriving Inhabited, Repr

namespace ModuleIndex

def get? (index : ModuleIndex) (name : String) : Option ModuleFile := index.modules.lookup name

def contains (index : ModuleIndex) (name : String) : Bool := (index.get? name).isSome

def size (index : ModuleIndex) : Nat := index.modules.length

def isEmpty (index : ModuleIndex) : Bool := index.modules.isEmpty

/-- Sets the file of a module whatever it was before. -/
def insert (index : ModuleIndex) (name : String) (source : ModuleFile) : ModuleIndex :=
  ⟨setPair name source index.modules⟩

/-- Sets the file of a module that has none yet. -/
def offer (index : ModuleIndex) (name : String) (source : ModuleFile) : ModuleIndex :=
  if index.contains name then index else index.insert name source

/-- Adds the modules below each root in turn. -/
def scan (index : ModuleIndex) (files : Files) (roots : List String) (suffix : String)
    (source : String → ModuleFile) : ModuleIndex :=
  roots.foldl (fun index root =>
    (candidates files suffix root).foldl (fun index (name, candidate) =>
      index.offer name (source candidate.path)) index) index

/-- The index that settings ask for: scripts first, then native modules. -/
def ofSettings (m : ModuleSettings) (files : Files) (environment : Variables) : ModuleIndex :=
  let cwd := if m.includeCwd then some files.cwd else none
  let scripts := searchRoots (m.scriptPath environment) m.suffix cwd
  let index := scan {} files scripts m.suffix .script
  if m.nativeModules then
    let natives := searchRoots (m.nativePath environment) m.nativeSuffix cwd
    index.scan files natives m.nativeSuffix .native
  else index

end ModuleIndex

end ScriptHost
