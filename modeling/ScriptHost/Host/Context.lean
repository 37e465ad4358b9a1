import ScriptHost.Host.Resource

/-!
# Execution contexts

A context names one run of a script and carries labels that the caller attached.
-/

namespace ScriptHost

structure ExecContext where
  script : String := ""
  «namespace» : String := ""
  labels : List (String × String) := []

namespace ExecContext

def shape : Shape where
  name := "ExecContext"
  package := "context"
  fields := [
    .visible "script" .str .text,
    .visible "namespace" .str .text,
    .visible "labels" .map (.map .text)]

def layout : Layout ExecContext where
  shape
  fields c := [.text c.script, .text c.namespace, Resource.labelData c.labels]
  ofFields
    | [.text script, .text «namespace», labels] =>
      { script, «namespace», labels := Resource.labelsOf labels }
    | _ => {}

def label (c : ExecContext) (key label : String) : ExecContext :=
  { c with labels := Datum.insertEntry key label c.labels }

/-- The name of the script inside its namespace. -/
def fullName (c : ExecContext) : String := c.namespace ++ "/" ++ c.script

def value : HostMethod := layout.method "Value" 1 fun c args => do
  let key ← HostM.textArg args 0
  return ([((c.labels.lookup key).map .str).getD .nil], c)

/-- Runs are never cancelled from inside. -/
def err : HostMethod := layout.method "Err" 0 fun c _ => return ([.nil], c)

def hostClass : HostClass where
  shape
  methods := [value, err]
  initial := layout.fields {}

end ExecContext

end ScriptHost
