import ScriptHost.Files.Path
import ScriptHost.Text.Utf8

/-!
# File trees

A file system is a value: files with their bytes, directories with named entries in ascending order,
and symbolic links.  Names are resolved the way an operating system does it, following a bounded
number of links.
-/

namespace ScriptHost

inductive Node where
  | file (content : ByteArray)
  | directory (entries : List (String × Node))
  | link (target : String)
deriving Inhabited

/-- Why a file could not be read or written. -/
inductive FileError where
  | notFound
  | isDirectory
  | notDirectory
  | tooManyLinks
  | nameTooLong
  | zeroInName
  | notText
deriving DecidableEq, Repr

def FileError.message : FileError → String
  | .notFound => "No such file or directory (os error 2)"
  | .isDirectory => "Is a directory (os error 21)"
  | .notDirectory => "Not a directory (os error 20)"
  | .tooManyLinks => "Too many levels of symbolic links (os error 40)"
  | .nameTooLong => "File name too long (os error 36)"
  | .zeroInName => "file name contained an unexpected NUL byte"
  | .notText => "stream did not contain valid UTF-8"

namespace Node

/-- Replaces or adds an entry, keeping the names in ascending order. -/
def setEntry (name : String) (node : Node) : List (String × Node) → List (String × Node)
  | [] => [(name, node)]
  | (other, old) :: rest =>
    if name = other then (name, node) :: rest
    else if name < other then (name, node) :: (other, old) :: rest
    else (other, old) :: setEntry name node rest

/-- Puts a node at a place below this one, making the directories on the way. -/
def put : Node → List String → Node → Node
  | _, [], node => node
  | .directory entries, part :: rest, node =>
    let below := (entries.lookup part).getD (.directory [])
    .directory (setEntry part (below.put rest node) entries)
  | _, part :: rest, node => .directory [(part, put (.directory []) rest node)]

def isDirectory : Node → Bool
  | .directory _ => true
  | _ => false

end Node

/-- A file system with the directory that relative names start from. -/
structure Files where
  root : Node := .directory []
  cwd : String := "/"

namespace Files

/-- The number of links that one resolution may follow. -/
def linkLimit : Nat := 40

/-- The bytes that one part of a name may have. -/
def partLimit : Nat := 255

/-- The bytes that a whole name may have. -/
def nameLimit : Nat := 4095

/-- Why a name cannot even be looked for. -/
def flaw? (path : String) : Option FileError :=
  if path.toList.contains '\x00' then some .zeroInName
  else if path = "" then some .notFound
  else if nameLimit < path.utf8ByteSize then some .nameTooLong
  else none

/-- A trailing separator asks for a directory. -/
def partsOf (path : String) : List String :=
  let parts := (splitText '/' path).filter (· ≠ "")
  if path.toList.getLast? = some '/' then parts ++ ["."] else parts

/--
Descends along the parts.  The stack holds the directories passed, innermost first; a link is
handed to `again` with the stack it starts from.
-/
def descend (root : Node) (followLast : Bool)
    (again : List Node → List String → Except FileError Node) :
    List Node → List String → Except FileError Node
  | stack, [] => .ok (stack.head?.getD root)
  | stack, part :: rest =>
    match stack.head?.getD root with
    | .directory entries =>
      if part = "." then descend root followLast again stack rest
      else if part = ".." then descend root followLast again stack.tail rest
      else if partLimit < part.utf8ByteSize then .error .nameTooLong
      else
        match entries.lookup part with
        | none => .error .notFound
        | some (.link target) =>
          if rest.isEmpty && !followLast then .ok (.link target)
          else again (if Path.isAbsolute target then [] else stack) (partsOf target ++ rest)
        | some node => descend root followLast again (node :: stack) rest
    | _ => .error .notDirectory

def resolveFrom (root : Node) (followLast : Bool) :
    Nat → List Node → List String → Except FileError Node
  | 0, _, _ => .error .tooManyLinks
  | links + 1, stack, parts =>
    descend root followLast (resolveFrom root followLast links) stack parts

/-- The node that a name leads to; a link in last place is followed if `followLast`. -/
def resolve (files : Files) (path : String) (followLast : Bool := true) : Except FileError Node :=
  match flaw? path with
  | some flaw => .error flaw
  | none =>
    let parts := if Path.isAbsolute path then partsOf path else partsOf files.cwd ++ partsOf path
    resolveFrom files.root followLast (linkLimit + 1) [] parts

def isFile (files : Files) (path : String) : Bool :=
  match files.resolve path with
  | .ok (.file _) => true
  | _ => false

def readBytes (files : Files) (path : String) : Except FileError ByteArray :=
  match files.resolve path with
  | .ok (.file content) => .ok content
  | .ok _ => .error .isDirectory
  | .error e => .error e

/-- The content of a file that holds text. -/
def readText (files : Files) (path : String) : Except FileError String :=
  match files.readBytes path with
  | .ok content =>
    match Utf8.decode? content with
    | some text => .ok text
    | none => .error .notText
  | .error e => .error e

/-- The entries of a directory in ascending order of their names. -/
def entries? (files : Files) (path : String) : Option (List (String × Node)) :=
  match files.resolve path with
  | .ok (.directory entries) => some entries
  | _ => none

/-- Writes a file into an existing directory; a trailing separator names no file. -/
def write (files : Files) (path : String) (content : ByteArray) : Except FileError Files :=
  match flaw? path with
  | some flaw => .error flaw
  | none =>
    let names := (splitText '/' path).filter (· ≠ "")
    let parts := if Path.isAbsolute path then names else partsOf files.cwd ++ names
    match resolveFrom files.root true (linkLimit + 1) [] parts.dropLast with
    | .error e => .error e
    | .ok (.directory _) =>
      if path.toList.getLast? = some '/' then .error .isDirectory
      else
        match files.resolve path with
        | .ok (.directory _) => .error .isDirectory
        | .ok _ | .error .notFound =>
          .ok { files with root := files.root.put parts (.file content) }
        | .error e => .error e
    | .ok _ => .error .notDirectory

end Files

end ScriptHost
