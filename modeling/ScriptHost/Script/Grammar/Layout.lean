import ScriptHost.Script.Program

/-!
# The layout of frames

While a function runs, its variables take the first slots of its frame, and the values that are
still needed the slots after them.  A function also holds on to the variables that it uses of the
functions around it; a function in between holds on to them for it.
-/

namespace ScriptHost

namespace Grammar

/-- A function as far as it was read. -/
structure Layout where
  /-- The active variables, the last one first; those that a loop keeps for itself have no name. -/
  locals : List (Option String) := []
  /-- How many variables were announced that are not active yet. -/
  announced : Nat := 0
  /-- Where the variables of the functions around come from, in the order of their first use. -/
  outer : List Variable := []
  /-- The first slot that is free. -/
  free : Nat := 0
  /-- How many slots the frame needs. -/
  slots : Nat := 2
  variadic : Bool := false
  /-- The line that the function starts on; zero for a whole program. -/
  line : Nat := 0
deriving Inhabited

namespace Layout

/-- A function has at most this many variables at a time. -/
def variableLimit : Nat := 200

/-- A function uses at most this many variables of the functions around it. -/
def outerLimit : Nat := 255

/-- A frame has fewer slots than this. -/
def slotLimit : Nat := 255

def activate (f : Layout) (names : List (Option String)) : Layout :=
  { f with
    locals := names.reverse ++ f.locals
    announced := f.announced - names.length }

def reserve (f : Layout) (count : Nat) : Layout :=
  { f with free := f.free + count, slots := max f.slots (f.free + count) }

/-- The place of a name among the named variables, the last one of which has place zero. -/
def placeIn (name : String) : List (Option String) → Nat → Option Nat
  | [], _ => none
  | none :: rest, place => placeIn name rest place
  | some other :: rest, place => if other = name then some place else placeIn name rest (place + 1)

/-- The slot of the last variable of a name. -/
def slotOf (name : String) : List (Option String) → Nat
  | [] => 0
  | v :: rest => if v = some name then rest.length else slotOf name rest

/-- The name that a variable has. -/
def nameOf : Variable → String
  | .own _ name => name
  | .outer _ name => name

def outerPlace? (f : Layout) (name : String) : Option Nat :=
  f.outer.findIdx? fun v => nameOf v = name

/--
The variable that a name stands for in the innermost of the given functions; each function between
it and that of the variable then holds on to it.
-/
def resolve? (name : String) : List Layout → Option (Variable × List Layout)
  | [] => none
  | f :: around =>
    match placeIn name f.locals 0 with
    | some place => some (.own place name, f :: around)
    | none =>
      match f.outerPlace? name with
      | some place => some (.outer place name, f :: around)
      | none =>
        match resolve? name around with
        | some (source, around) =>
          some (.outer f.outer.length name, { f with outer := f.outer ++ [source] } :: around)
        | none => none

end Layout

end Grammar

end ScriptHost
