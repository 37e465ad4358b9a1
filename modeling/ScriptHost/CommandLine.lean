import ScriptHost.Execution
import ScriptHost.Host.Builtin

/-!
# The command line

A run of a script file: options, the settings that are found, and what is printed in the end.
-/

namespace ScriptHost

namespace CommandLine

def usage : String := "usage: hostlua [--moon] [--namespace NS] <script>"

structure Options where
  /-- Whether the script is in a dialect. -/
  dialect : Bool := false
  «namespace» : String := "default"
  script : Option String := none

/-- What the arguments ask for. -/
inductive Request where
  | run (options : Options)
  | help
  | misused

/-- Reads arguments from left to right; the last script named counts. -/
def request (options : Options) : List String → Request
  | [] => .run options
  | "--moon" :: rest => request { options with dialect := true } rest
  | "--namespace" :: ns :: rest => request { options with «namespace» := ns } rest
  | ["--namespace"] => .misused
  | "-h" :: _ => .help
  | "--help" :: _ => .help
  | script :: rest => request { options with script := some script } rest

/-- What a program leaves behind. -/
structure Outcome where
  code : Nat
  output : String := ""
  errors : String := ""

def failed (message : String) : Outcome := { code := 2, errors := message ++ "\n" }

/-- The classes of the objects that a run starts with. -/
def classes : List HostClass := [ExecContext.hostClass, Store.hostClass, Resource.hostClass]

/-- Ends a run with its status. -/
def conclude (result : Except RunError String) : Outcome :=
  let status := Verdict.ofResult result
  { code := if status.isSuccess then 0 else 1
    output := result.toOption.getD ""
    errors := status.text ++ "\n" }

def runScript (files : Files) (environment : Variables) (options : Options) (path source : String) :
    Option Outcome :=
  let settings := Settings.discover files environment
  let host : Host := { classes, registry := .builtin }
  let context : ExecContext := { «namespace» := options.namespace, script := path }
  let run : RunM String := do
    let client ← MachineM.onObjects (fun e => .machine (.host e))
      (Store.layout.new { name := "local" })
    let client := HostValue.ptr (some client)
    if options.dialect then Execution.performDialect settings host context source client
    else Execution.perform settings host context source client
  match (run.run.run (.new files environment)).1 with
  | .ok output => some (conclude (.ok output))
  | .error (.error e) => some (conclude (.error e))
  | .error (.panic text) => some { code := 101, errors := text ++ "\n" }
  | .error .endless => none

/-- What a run of the program leaves behind; nothing if it does not end. -/
def run (files : Files) (environment : Variables) (args : List String) : Option Outcome :=
  match request {} args with
  | .misused => some (failed usage)
  | .help => some { code := 0, output := usage ++ "\n" }
  | .run options =>
    match options.script with
    | none => some (failed usage)
    | some path =>
      match files.readText path with
      | .error cause => some (failed s!"Failed to read {path}: {cause.message}")
      | .ok source => runScript files environment options path source

end CommandLine

end ScriptHost
