import ScriptHost.Host.Class

/-!
# Sample functions

Free functions for every way arguments and results can be treated.
-/

namespace ScriptHost

namespace Sample

abbrev HostCall := List HostValue → HostM (List HostValue)

def echo : HostCall := fun args => return args

def rev : HostCall := fun args => return args.reverse

def count : HostCall := fun args => return [.int (.ofNat args.length)]

/-- The text of each argument. -/
def texts : HostCall := fun args => args.mapM fun v => do return .str (← HostM.textOf v)

def kinds : HostCall := fun args => return args.map (.str ·.kind)

def fails : HostCall := fun args => do HostM.fail (.custom (← HostM.textArg args 0))

def boom : HostCall := fun _ => throw (.panic "kaboom")

def add : HostCall := fun args => do
  let a ← HostM.intArg args 0
  let b ← HostM.intArg args 1
  return [.int (a + b)]

/-- Greets a name; a title may be left out. -/
def greet : HostCall := fun args => do
  let name ← HostM.textArg args 0
  let title := match ← HostM.argument (.option .text) args 1 with
    | .present (.text s) => s
    | _ => ""
  return [.str ("hello " ++ title ++ name)]

def foreign : HostCall := fun _ => return [.foreign "chan"]

def nilKey : HostCall := fun _ => return [.map [(.nil, .int 1)]]

def deref : HostCall := fun args => do return [.struct (← HostM.objectArg args 0)]

/-- The function of a name, if there is one. -/
def named? (name : String) : Option HostCall :=
  [("echo", echo), ("rev", rev), ("count", count), ("show", texts), ("kinds", kinds),
    ("fail", fails), ("boom", boom), ("add", add), ("greet", greet), ("opaque", foreign),
    ("nilkey", nilKey), ("deref", deref)].lookup name

end Sample

end ScriptHost
