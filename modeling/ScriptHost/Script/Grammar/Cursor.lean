import ScriptHost.Script.Grammar.Layout
import ScriptHost.Script.Token

/-!
# Reading tokens

Programs are read from their tokens one after the other.  Messages name the token at which reading
stopped and its line.  What is read may lie inside each other no deeper than a limit.
-/

namespace ScriptHost

/-- Why a text is no program. -/
inductive GrammarError where
  | malformed (line : Nat) (message : String)
  /-- Its parts lie too deep inside each other. -/
  | tooDeep
deriving DecidableEq, Repr

namespace Grammar

/-- A place between tokens, with the functions around it, the innermost first. -/
structure Cursor where
  current : Token
  rest : List Token
  /-- The line that is read. -/
  line : Nat
  /-- The line that was read when the token before was passed. -/
  lastLine : Nat
  functions : List Layout
  /-- How deep the part that is read lies inside others. -/
  level : Nat

abbrev ParseM := StateT Cursor (Except GrammarError)

/-- A token as messages show it. -/
def shown (t : Token) : String :=
  match t.lexeme with
  | .finish => "<eof>"
  | .stray b =>
    if 32 ≤ b.toNat ∧ b.toNat < 127 then "'" ++ Token.asciiText [b] ++ "'"
    else "'<\\" ++ toString b.toNat ++ ">'"
  | _ => if t.raw.isEmpty then "<eof>" else "'" ++ Utf8.decode (.mk t.raw.toArray) ++ "'"

def failAt {α : Type} (line : Nat) (t : Token) (complaint : String) : ParseM α :=
  throw (.malformed line (complaint ++ " near " ++ shown t))

def current : ParseM Token := do return (← get).current

def line : ParseM Nat := do return (← get).line

def lastLine : ParseM Nat := do return (← get).lastLine

def fail {α : Type} (complaint : String) : ParseM α := do failAt (← line) (← current) complaint

/-- Refuses a token that is a lexical error. -/
def admissible (t : Token) : ParseM Unit :=
  match t.lexeme with
  | .broken complaint => failAt t.line t complaint
  | _ => pure ()

def advance : ParseM Unit := do
  let c ← get
  match c.rest with
  | [] => pure ()
  | next :: rest =>
    admissible next
    set { c with current := next, rest, line := next.line, lastLine := c.line }

/-- The token after the current one, which is read with it. -/
def lookAhead : ParseM Token := do
  let c ← get
  match c.rest with
  | [] => return c.current
  | next :: _ =>
    admissible next
    set { c with line := next.line }
    return next

/-- Whether a mark is the current token. -/
def at? (text : String) : ParseM Bool := do
  match (← current).lexeme with
  | .mark found => return found == text
  | _ => return false

/-- Passes a mark if it is the current token. -/
def accept (text : String) : ParseM Bool := do
  if ← at? text then
    advance
    return true
  else return false

def expect (text : String) : ParseM Unit := do
  unless ← accept text do fail s!"'{text}' expected"

/-- Expects the mark that closes an opening one on an earlier line. -/
def expectClosing (closing opening : String) (opened : Nat) : ParseM Unit := do
  unless ← accept closing do
    if (← line) = opened then fail s!"'{closing}' expected"
    else fail s!"'{closing}' expected (to close '{opening}' at line {opened})"

def expectName : ParseM String := do
  match (← current).lexeme with
  | .name text =>
    advance
    return text
  | _ => fail "<name> expected"

def currentMark : ParseM String := do
  match (← current).lexeme with
  | .mark text => return text
  | _ => return ""

/-- Whether the current token ends a block. -/
def blockEnds : ParseM Bool := do
  match (← current).lexeme with
  | .finish => return true
  | .mark text => return ["else", "elseif", "end", "until"].contains text
  | _ => return false

/-- Parts may lie this deep inside each other. -/
def levelLimit : Nat := 200

/-- Reads a part one level deeper. -/
def deeper {α : Type} (part : ParseM α) : ParseM α := do
  let level := (← get).level + 1
  if levelLimit ≤ level then throw .tooDeep
  modify ({ · with level })
  let a ← part
  modify ({ · with level := level - 1 })
  return a

/-- Complains about more of something than a function may have. -/
def tooMany {α : Type} (f : Layout) (what : String) (limit : Nat) : ParseM α :=
  let place := if f.line = 0 then "main function" else s!"function at line {f.line}"
  fail s!"too many {what} (limit is {limit}) in {place}"

/-- The function that is read. -/
def layout : ParseM Layout := do return (← get).functions.head?.getD {}

def modifyLayout (change : Layout → Layout) : ParseM Unit :=
  modify fun c =>
    match c.functions with
    | f :: around => { c with functions := change f :: around }
    | [] => c

/-- Announces a variable that becomes active later. -/
def announce : ParseM Unit := do
  let f ← layout
  if Layout.variableLimit ≤ f.locals.length + f.announced then
    tooMany f "local variables" Layout.variableLimit
  modifyLayout fun f => { f with announced := f.announced + 1 }

/-- Makes announced variables active; some of them have no name. -/
def activate (names : List (Option String)) : ParseM Unit :=
  modifyLayout (·.activate names)

/-- Takes the next slots of the frame. -/
def reserve (count : Nat) : ParseM Unit := do
  let f ← layout
  if f.slots < f.free + count ∧ Layout.slotLimit ≤ f.free + count then
    fail "function or expression needs too many registers"
  modifyLayout (·.reserve count)

/-- Gives back a slot unless it is that of a variable. -/
def release (slot : Nat) : ParseM Unit :=
  modifyLayout fun f => if slot < f.locals.length then f else { f with free := f.free - 1 }

/-- Gives back all slots but those of variables. -/
def releaseAll : ParseM Unit := modifyLayout fun f => { f with free := f.locals.length }

/-- Reads a block, whose variables end with it. -/
def enclosed {α : Type} (block : ParseM α) : ParseM α := do
  let outside := (← layout).locals
  let a ← block
  modifyLayout fun f => { f with locals := outside, free := outside.length }
  return a

/-- The variable that a name stands for in the function that is read. -/
def resolve? (name : String) : ParseM (Option Variable) := do
  let c ← get
  match Layout.resolve? name c.functions with
  | none => return none
  | some (v, functions) =>
    match functions.find? fun f => Layout.outerLimit < f.outer.length with
    | some f => tooMany f "upvalues" Layout.outerLimit
    | none =>
      set { c with functions }
      return some v

end Grammar

end ScriptHost
