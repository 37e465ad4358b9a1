import ScriptHost.Files.Path

/-!
# Search roots

A search path is a list of entries between semicolons.  An entry may end in a template for the
names of files; without its templates it names a directory.  Only absolute directories count, and a
directory that is listed twice counts where it comes first.
-/

namespace ScriptHost

namespace SearchRoots

/-- An entry without its templates. -/
def stripTemplates (suffix entry : String) : String :=
  replaceText ("?" ++ suffix) "" (replaceText ("?/init" ++ suffix) "" entry)

/-- The directories named by a search path, with the working directory after all others. -/
def entries (list : Option String) (suffix : String) (cwd : Option String) : List String :=
  (splitText ';' (list.getD "")).map (stripTemplates suffix) ++ cwd.toList

/-- Keeps absolute paths, each where it comes first. -/
def distinct (kept : List String) : List String → List String
  | [] => kept
  | path :: rest =>
    if Path.isAbsolute path ∧ ¬ ∃ other ∈ kept, Path.Same other path then
      distinct (kept ++ [path]) rest
    else distinct kept rest

end SearchRoots

/-- The directories to search for modules, in order. -/
def searchRoots (list : Option String) (suffix : String) (cwd : Option String) : List String :=
  SearchRoots.distinct [] (SearchRoots.entries list suffix cwd)

end ScriptHost
