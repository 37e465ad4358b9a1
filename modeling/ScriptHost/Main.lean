import ScriptHost.CommandLine

/-!
# The program

Reads the variables and files that a run may look at, runs the command line on them and prints what
it leaves behind.
-/

namespace ScriptHost

namespace Program

/-- The variables that settings and interpreters ask for by themselves. -/
def variableNames : List String := [
  "HOME", "XDG_CONFIG_HOME", "HOSTLUA_LUA_PATH", "HOSTLUA_LUA_CPATH", "HOSTLUA_NATIVE_MODULES",
  "HOSTLUA_ASSIGN_POLICY", "HOSTLUA_LOG_LEVEL", "LUA_PATH", "LUA_CPATH", "LUA_PATH_5_4",
  "LUA_CPATH_5_4"]

def readVariables (names : List String) : IO Variables :=
  names.filterMapM fun name => do return (← IO.getEnv name).map fun value => (name, value)

/-- Puts a node at the place that a name leads to from the working directory. -/
def place (files : Files) (path : String) (node : Node) : Files :=
  let parts := (if Path.isAbsolute path then [] else Files.partsOf files.cwd) ++ Files.partsOf path
  { files with root := files.root.put (parts.filter (· ≠ ".")) node }

/-- Adds a file, if it can be read. -/
def addFile (files : Files) (path : String) : IO Files := do
  try
    return place files path (.file (← IO.FS.readBinFile path))
  catch _ => return files

/-- A node of the file system; the content of files that hold no scripts is left out. -/
partial def load (suffixes : List String) (directory name : String) : IO Node := do
  let path := (← IO.currentDir) / directory / name
  try
    let isLink := (← path.symlinkMetadata).type == .symlink
    if ← path.isDir then
      if isLink && name ≠ "" then return .link (← IO.FS.realPath path).toString
      let entries ← path.readDir
      let nodes ← entries.toList.mapM fun entry => do
        return (entry.fileName, ← load suffixes path.toString entry.fileName)
      return .directory (nodes.foldl (fun sorted (name, node) => Node.setEntry name node sorted) [])
    if suffixes.any fun suffix => name.endsWith suffix then
      return .file (← IO.FS.readBinFile path)
    return .file .empty
  catch _ => return .file .empty

/-- Adds a directory with all that is below it, if there is one. -/
def addTree (suffixes : List String) (files : Files) (path : String) : IO Files := do
  match ← load suffixes path "" with
  | node@(.directory _) => return place files path node
  | _ => return files

def run (args : List String) : IO UInt32 := do
  let cwd := (← IO.currentDir).toString
  let known ← readVariables variableNames
  let places := (Settings.places known).map (·.2)
  let settings := Settings.discover (← places.foldlM addFile { cwd }) known
  let modules := settings.modules
  let environment := known ++ (← readVariables [modules.pathVar, modules.cpathVar])
  let roots := searchRoots (modules.scriptPath environment) modules.suffix (some cwd)
    ++ searchRoots (modules.nativePath environment) modules.nativeSuffix none
  let files ← roots.foldlM (addTree [modules.suffix, ".lua"]) { cwd }
  let script := match CommandLine.request {} args with
    | .run options => options.script.toList
    | _ => []
  let files ← (places ++ script).foldlM addFile files
  match CommandLine.run files environment args with
  | some outcome =>
    IO.print outcome.output
    IO.eprint outcome.errors
    return outcome.code.toUInt32
  | none =>
    IO.eprintln "stack overflow"
    return 134

end Program

end ScriptHost

def main (args : List String) : IO UInt32 := ScriptHost.Program.run args
