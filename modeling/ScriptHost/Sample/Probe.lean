import ScriptHost.Host.Resource

/-!
# Probes

A class with a field of every storage and methods for every way a call can end, to exercise the
boundary between host and scripts.
-/

namespace ScriptHost

structure Probe where
  text : String := ""
  num : Int64 := 0
  small : Int64 := 0
  size : UInt64 := 0
  ratio : Binary64 := .zero
  single : Binary64 := .zero
  flag : Bool := false
  items : Datum := .list []
  tags : Datum := .map []
  counts : Datum := .map []
  note : Datum := .absent
  res : Datum := .record Resource.shape Resource.hostClass.initial
  link : Datum := .absent
  any : HostValue := .nil
  hidden : Int64 := 0

namespace Probe

def shape : Shape where
  name := "Probe"
  package := "probe"
  fields := [
    .visible "text" .str .text,
    .visible "num" .int .int64,
    .visible "small" .int .int32,
    .visible "size" .int .size,
    .visible "ratio" .float .float,
    .visible "single" .float .single,
    .visible "flag" .bool .bool,
    .visible "items" .list (.list .int64),
    .visible "tags" .map (.map .text),
    .visible "counts" .map (.map .int64),
    .visible "note" .str (.option .text),
    .visible "res" .struct (.record Resource.shape),
    .visible "link" .ptr (.option .object),
    .visible "any" .foreign .any,
    .hidden "hidden" .int64]

def layout : Layout Probe where
  shape
  fields p := [.text p.text, .int p.num, .int p.small, .size p.size, .float p.ratio,
    .float p.single, .bool p.flag, p.items, p.tags, p.counts, p.note, p.res, p.link, .any p.any,
    .int p.hidden]
  ofFields
    | [.text text, .int num, .int small, .size size, .float ratio, .float single, .bool flag, items,
        tags, counts, note, res, link, .any any, .int hidden] =>
      { text, num, small, size, ratio, single, flag, items, tags, counts, note, res, link, any,
        hidden }
    | _ => {}

/-- Adds to the number, wrapping around. -/
def bump : HostMethod := layout.method "Bump" 1 fun p args => do
  let step ← HostM.intArg args 0
  let p := { p with num := p.num + step }
  return ([.int p.num], p)

def echo : HostMethod := layout.method "Echo" 2 fun p args => return (args, p)

def many : HostMethod := layout.method "Many" 0 fun p _ =>
  return ([.int 1, .str "two", .nil, .float ⟨0x400c000000000000⟩, .float ⟨0x4010000000000000⟩], p)

def fails : HostMethod := layout.method "Fail" 1 fun _ args => do
  HostM.fail (.custom (← HostM.textArg args 0))

def boom : HostMethod := layout.method "Boom" 0 fun _ _ => throw (.panic "boom method")

/-- Reads the public field `text` of another object. -/
def peek : HostMethod := layout.method "Peek" 1 fun p args => do
  let other ← HostM.objectArg args 0
  return ([(← HostM.field other "text").getD .nil], p)

def displays : HostMethod := layout.method "Show" 1 fun p args => do
  return ([.str (← HostM.textOf (args[0]?.getD .nil))], p)

def hostClass : HostClass where
  shape
  methods := [bump, echo, many, fails, boom, peek, displays]
  initial := layout.fields {}

end Probe

end ScriptHost
