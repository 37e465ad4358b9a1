import ScriptHost.Script.Library

/-!
# New interpreters

What an interpreter starts with: the tables of the standard modules, the cache that holds them and
the search paths.
-/

namespace ScriptHost

namespace Interpreter

open MachineM

/-- The names of the functions of each standard module. -/
def modules : List (String × List String) := [
  ("_G", ["assert", "collectgarbage", "dofile", "error", "getmetatable", "ipairs", "load",
    "loadfile", "next", "pairs", "pcall", "print", "rawequal", "rawget", "rawlen", "rawset",
    "require", "select", "setmetatable", "tonumber", "tostring", "type", "warn", "xpcall"]),
  ("coroutine", ["close", "create", "isyieldable", "resume", "running", "status", "wrap", "yield"]),
  ("io", ["close", "flush", "input", "lines", "open", "output", "popen", "read", "tmpfile", "type",
    "write"]),
  ("math", ["abs", "acos", "asin", "atan", "atan2", "ceil", "cos", "cosh", "deg", "exp", "floor",
    "fmod", "frexp", "ldexp", "log", "log10", "max", "min", "modf", "pow", "rad", "random",
    "randomseed", "sin", "sinh", "sqrt", "tan", "tanh", "tointeger", "type", "ult"]),
  ("os", ["clock", "date", "difftime", "execute", "exit", "getenv", "remove", "rename", "setlocale",
    "time", "tmpname"]),
  ("package", ["loadlib", "searchpath"]),
  ("string", ["byte", "char", "dump", "find", "format", "gmatch", "gsub", "len", "lower", "match",
    "pack", "packsize", "rep", "reverse", "sub", "unpack", "upper"]),
  ("table", ["concat", "insert", "move", "pack", "remove", "sort", "unpack"]),
  ("utf8", ["char", "codepoint", "codes", "len", "offset"])]

/-- The module that only guests have. -/
def debugFunctions : List String := ["debug", "gethook", "getinfo", "getlocal", "getmetatable",
  "getregistry", "getupvalue", "getuservalue", "setcstacklimit", "sethook", "setlocal",
  "setmetatable", "setupvalue", "setuservalue", "traceback", "upvalueid", "upvaluejoin"]

/-- The function of a name in a module. -/
def functionNamed : String → String → Standard
  | "_G", "assert" => .assert
  | "_G", "error" => .error
  | "_G", "getmetatable" => .getMetatable
  | "_G", "ipairs" => .ipairs
  | "_G", "next" => .next
  | "_G", "pairs" => .pairs
  | "_G", "pcall" => .pcall
  | "_G", "print" => .print
  | "_G", "rawequal" => .rawEqual
  | "_G", "rawget" => .rawGet
  | "_G", "rawlen" => .rawLen
  | "_G", "rawset" => .rawSet
  | "_G", "require" => .require
  | "_G", "select" => .select
  | "_G", "setmetatable" => .setMetatable
  | "_G", "tostring" => .toString
  | "_G", "type" => .type
  | "coroutine", "create" => .coroutineCreate
  | "math", "type" => .mathType
  | "string", "find" => .stringFind
  | "string", "upper" => .stringUpper
  | "table", "concat" => .tableConcat
  | "table", "insert" => .tableInsert
  | "table", "sort" => .tableSort
  | module, name => .other (if module = "_G" then name else module ++ "." ++ name)

/-- The operators that strings have. -/
def textOperators : List (String × Standard) :=
  ([.add, .sub, .mul, .mod, .pow, .div, .floorDiv] : List BinaryOp).map (fun op =>
    ("__" ++ Arithmetic.eventName op, .onTexts op)) ++ [("__unm", .negateText)]

/-- A pattern that one character in its encoding matches. -/
def characterPattern : ByteArray :=
  .mk #[91, 0, 45, 0x7f, 0xc2, 45, 0xfd, 93, 91, 0x80, 45, 0xbf, 93, 42]

/-- Where the interpreter's own `require` looks for scripts. -/
def defaultPath : String :=
  "/usr/local/share/lua/5.4/?.lua;/usr/local/share/lua/5.4/?/init.lua;"
    ++ "/usr/local/lib/lua/5.4/?.lua;/usr/local/lib/lua/5.4/?/init.lua;./?.lua;./?/init.lua"

/-- Where the interpreter's own `require` looks for native modules. -/
def defaultNativePath : String :=
  "/usr/local/lib/lua/5.4/?.so;/usr/local/lib/lua/5.4/loadall.so;./?.so"

/-- A search path that a variable gives; a double semicolon in it stands for the default one. -/
def searchPath (environment : Variables) (name default : String) : String :=
  match environment.lookup (name ++ "_5_4") <|> environment.lookup name with
  | none => default
  | some path =>
    match cut? [';', ';'] path.toList with
    | some (before, after) =>
      (if before.isEmpty then "" else String.ofList before ++ ";") ++ default
        ++ (if after.isEmpty then "" else ";" ++ String.ofList after)
    | none => path

variable {ε : Type}

def setFunctions (id : TableId) (module : String) : List String → MachineM ε Unit
  | [] => pure ()
  | name :: rest => do
    rawSet id (.text name) (← newNative (.standard (functionNamed module name)))
    setFunctions id module rest

def setValues (id : TableId) : List (String × Value) → MachineM ε Unit
  | [] => pure ()
  | (name, v) :: rest => do
    rawSet id (.text name) v
    setValues id rest

/-- Enters a module in the cache and makes it a global. -/
def addModule (module : String) (id : TableId) (functions : List String) : MachineM ε Unit := do
  let s ← get
  setFunctions id module functions
  rawSet s.loaded (.text module) (.table id)
  rawSet s.globals (.text module) (.table id)

def addModules : List (String × List String) → MachineM ε Unit
  | [] => pure ()
  | (module, functions) :: rest => do
    let id ← if module = "_G" then pure (← get).globals else newTable
    addModule module id functions
    addModules rest

/-- The table of a module that is in the cache. -/
def moduleTable (module : String) : MachineM ε TableId := do
  let s ← get
  match ← rawGet s.loaded (.text module) with
  | .table id => return id
  | _ => return s.globals

/-- The metatable of streams, with what can be done to them. -/
def newStreamMeta : MachineM ε TableId := do
  let methods ← newTable
  setFunctions methods "file" ["close", "flush", "lines", "read", "seek", "setvbuf", "write"]
  let streams ← newTable
  setValues streams [("__name", .text "FILE*"), ("__index", .table methods)]
  setFunctions streams "file" ["__gc", "__close"]
  return streams

def install : MachineM ε Unit := do
  let globals ← newTable
  let loaded ← newTable
  modify fun s => { s with globals, loaded }
  addModules modules
  setValues globals [("_VERSION", .text "Lua 5.4")]
  setValues (← moduleTable "math") [
    ("pi", .float ⟨0x400921fb54442d18⟩), ("huge", .float .infinity),
    ("maxinteger", .int .maxValue), ("mininteger", .int .minValue)]
  setValues (← moduleTable "io") [
    ("stdin", ← newUserdata), ("stdout", ← newUserdata), ("stderr", ← newUserdata)]
  let package ← moduleTable "package"
  let environment := (← get).environment
  setValues package [
    ("config", .text "/\n;\n?\n!\n-\n"), ("loaded", .table loaded),
    ("preload", .table (← newTable)),
    ("path", .text (searchPath environment "LUA_PATH" defaultPath)),
    ("cpath", .text (searchPath environment "LUA_CPATH" defaultNativePath))]
  setValues (← moduleTable "utf8") [("charpattern", .str characterPattern)]
  let strings ← newTable
  setValues strings [("__index", .table (← moduleTable "string"))]
  textOperators.forM fun (event, f) => do
    rawSet strings (.text event) (← newNative (.standard f))
  let streamMeta ← some <$> newStreamMeta
  let nextFunction ← rawGet globals (.text "next")
  let nextItemFunction ← newNative (.standard .ipairsNext)
  modify fun s =>
    { s with package, stringMeta := some strings, streamMeta, nextFunction, nextItemFunction }

end Interpreter

namespace Machine

/-- A new machine with the standard functions, over the given files and variables. -/
def new (files : Files) (environment : Variables) (objects : Objects := {}) : Machine :=
  ((Interpreter.install : MachineM Unit Unit).run.run { files, environment, objects }).2

end Machine

end ScriptHost
