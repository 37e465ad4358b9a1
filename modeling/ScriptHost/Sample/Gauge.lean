import ScriptHost.Host.Class

/-!
# Gauges

A small class outside every package.
-/

namespace ScriptHost

structure Gauge where
  label : String := ""
  level : Binary64 := .zero

namespace Gauge

def shape : Shape where
  name := "Gauge"
  package := ""
  fields := [.visible "label" .str .text, .visible "level" .float .float]

def layout : Layout Gauge where
  shape
  fields g := [.text g.label, .float g.level]
  ofFields
    | [.text label, .float level] => { label, level }
    | _ => {}

def raise : HostMethod := layout.method "Raise" 1 fun g args => do
  let step ← HostM.floatArg args 0
  let g := { g with level := g.level.add step }
  return ([.float g.level], g)

def hostClass : HostClass where
  shape
  methods := [raise]
  initial := layout.fields {}

end Gauge

end ScriptHost
