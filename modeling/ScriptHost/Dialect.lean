import ScriptHost.Boundary.Collection
import ScriptHost.Calls

/-!
# Dialects

A dialect is compiled to script text by modules of its own: one turns the text into a tree, the
other turns the tree into script text.  However a compilation comes back, its source is cleared from the
globals, its modules leave the cache, and what nothing leads to any more is collected.
-/

namespace ScriptHost

inductive DialectError where
  | parse (message : String)
  | compile (message : String)
  | script (e : ScriptError)

def DialectError.message : DialectError → String
  | .parse message => "parse error: " ++ message
  | .compile message => "compile error: " ++ message
  | .script e => e.message

abbrev DialectM := MachineM DialectError

namespace Dialect

open MachineM

/-- The global that holds the source during a compilation. -/
def sourceVariable : String := "__dialect_source"

def scripted {α : Type} (m : MachineM ScriptError α) : DialectM α := mapError .script m

/-- The first component of a dotted name that has more than one. -/
def rootPackage? (name : String) : Option String :=
  match splitText '.' name with
  | root :: _ :: _ => some root
  | _ => none

def addDistinct (names : List String) (name : String) : List String :=
  if names.contains name then names else names ++ [name]

/-- The names that leave the cache after a compilation. -/
def modulesToForget (d : DialectSettings) : List String :=
  let names := [d.parseModule, d.compileModule]
  (names.filterMap rootPackage?).foldl addDistinct names

/-- Removes a module from the cache in use. -/
def forget (name : String) : MachineM ScriptError Unit := do
  match (← get).installed with
  | some r => mapError .loading (Resolver.forget call r name)
  | none =>
    match ← ScriptM.globalFor call "package" with
    | .nil => pure ()
    | package =>
      let id ← Published.expectTable package
      let loaded ← Published.expectTable (← ScriptM.indexFor call (.table id) (.text "loaded"))
      rawSet loaded (.text name) .nil

/-- Removes a module from the cache in use; one that cannot be removed is passed over. -/
def evict (name : String) : MachineM Empty Unit := discard (attempt (forget name))

/--
Clears up after a compilation.  A panic on the way to the cache leaves at once.  The collection in
the end spares the values that the host holds.
-/
def clearUp (d : DialectSettings) (held : List Value) : MachineM Empty Unit := do
  modify fun s =>
    { s with tables := s.tables.modify s.globals.index (·.set (.text sourceVariable) .nil) }
  (modulesToForget d).forM evict
  modify (·.collect held)

/-- A function that a module provides. -/
def moduleFunction (module field : String) : MachineM ScriptError Value := do
  let require ← Published.expectFunction (← ScriptM.globalFor call "require")
  let id ← Published.expectTable (← ScriptM.firstFor call require [.text module])
  match ← ScriptM.indexFor call (.table id) (.text field) with
  | .nil => fail (.runtime s!"{module} has no function {field}")
  | v => Published.expectFunction v

/-- What a module says about its failure. -/
def complaint (v : Value) : String :=
  match v.bytes? with
  | some bytes => Utf8.decode bytes
  | none => if v.isNil then "unknown error" else v.hostType ++ " error value"

def compileSource (d : DialectSettings) (source : String) : DialectM String := do
  scripted (ScriptM.setGlobalFor call sourceVariable (.text source))
  let parse ← scripted (moduleFunction d.parseModule "string")
  let compile ← scripted (moduleFunction d.compileModule "tree")
  let input ← scripted (ScriptM.globalFor call sourceVariable)
  let parsed ← scripted (ScriptM.callFor call parse [input])
  let tree := ScriptM.first parsed
  if !tree.truthy then fail (.parse (complaint (ScriptM.first parsed.tail)))
  let compiled ← scripted (ScriptM.callFor call compile [tree])
  match ScriptM.first compiled with
  | .str code =>
    if code.size = 0 then fail (.compile (complaint (ScriptM.first compiled.tail)))
    else return Utf8.decode code
  | _ => fail (.compile (complaint (ScriptM.first compiled.tail)))

/-- Compiles a source on a machine whose `require` finds the dialect's modules. -/
def compileHere (d : DialectSettings) (held : List Value) (source : String) : DialectM String :=
  ensuring (compileSource d source) (clearUp d held)

/-- Gives a machine a resolver over the modules that settings name. -/
def resolverFor (modules : ModuleSettings) : MachineM ScriptError Nat := do
  let s ← get
  let r ← Resolver.new (.ofSettings modules s.files s.environment)
  mapError .loading (Resolver.install call r)
  return r

/-- Compiles a source on a machine of its own, of which the host holds nothing. -/
def compile (modules : ModuleSettings) (d : DialectSettings) (files : Files)
    (environment : Variables) (source : String) : Except (Stop DialectError) String :=
  let run : DialectM String := do
    discard (scripted (resolverFor modules))
    compileHere d [] source
  (run.run.run (.new files environment)).1

end Dialect

end ScriptHost
