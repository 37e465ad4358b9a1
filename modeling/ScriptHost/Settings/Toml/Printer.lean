import ScriptHost.Settings.Document

/-!
# Writing TOML

Sections become tables under headers, after the plain keys of the table around them; a list of
sections repeats its header.  A list of more than one item has a line for each.  A text is written
in the plainest form that holds it.
-/

namespace ScriptHost

namespace Toml

/-- The longest run of a character. -/
def longestRun (c : Char) : List Char → Nat → Nat
  | [], run => run
  | d :: rest, run => if d = c then longestRun c rest (run + 1) else max run (longestRun c rest 0)

/-- What decides how a text is written. -/
structure Traits where
  singles : Nat
  doubles : Nat
  backslash : Bool
  newline : Bool
  /-- Whether it holds a control character other than a tab or a line end. -/
  control : Bool

def isControl (c : Char) : Bool :=
  (c.toNat ≤ 0x1f && c != '\t' && c != '\n') || c.toNat == 0x7f

def traits (text : List Char) : Traits where
  singles := longestRun '\'' text 0
  doubles := longestRun '"' text 0
  backslash := text.contains '\\'
  newline := text.contains '\n'
  control := text.any isControl

/-- The forms of a text: escaped or as it is, on one line or on several. -/
inductive TextForm where
  | basic
  | literal
  | longBasic
  | longLiteral
deriving DecidableEq, Repr

/-- The first form that needs no escapes, or else an escaped one. -/
def textForm (t : Traits) : TextForm :=
  if !t.control && !t.backslash && t.doubles == 0 && !t.newline then .basic
  else if !t.control && t.singles == 0 && !t.newline then .literal
  else if !t.control && !t.backslash && t.doubles ≤ 2 then .longBasic
  else if !t.control && t.singles ≤ 2 then .longLiteral
  else if t.newline then .longBasic
  else .basic

def upperHex (n : Nat) : Char := (Nat.digitChar n).toUpper

def escapeControl (c : Char) : List Char :=
  if c = '\x08' then ['\\', 'b']
  else if c = '\t' then ['\\', 't']
  else if c = '\n' then ['\\', 'n']
  else if c = '\x0c' then ['\\', 'f']
  else if c = '\r' then ['\\', 'r']
  else if c = '\\' then ['\\', '\\']
  else if isControl c then
    ['\\', 'u', '0', '0', upperHex (c.toNat / 16), upperHex (c.toNat % 16)]
  else [c]

/-- Escapes a text; `quotes` double quotes in a row may stand as they are. -/
def escapeText (long : Bool) (quotes : Nat) : List Char → Nat → List Char
  | [], _ => []
  | c :: rest, run =>
    if c = '"' then
      if run < quotes then c :: escapeText long quotes rest (run + 1)
      else '\\' :: '"' :: escapeText long quotes rest 0
    else if c = '\n' ∧ long then c :: escapeText long quotes rest 0
    else escapeControl c ++ escapeText long quotes rest 0

def quote (s : String) : String :=
  let text := s.toList
  let t := traits text
  let start := if t.newline then "\n" else ""
  match textForm t with
  | .basic => "\"" ++ String.ofList (escapeText false 0 text 0) ++ "\""
  | .literal => "'" ++ s ++ "'"
  | .longBasic => "\"\"\"" ++ start ++ String.ofList (escapeText true 2 text 0) ++ "\"\"\""
  | .longLiteral => "'''" ++ start ++ s ++ "'''"

def isBareKey (key : String) : Bool :=
  !key.isEmpty && key.toList.all fun c => c.isAlphanum || c == '_' || c == '-'

def quoteKey (key : String) : String := if isBareKey key then key else quote key

mutual

/-- A value on the right of its key. -/
def inline : Document → String
  | .null | .other => "0"
  | .bool b => toString b
  | .text s => quote s
  | .list [] => "[]"
  | .list [item] => "[" ++ inline item ++ "]"
  | .list items => "[\n" ++ inlineItems items ++ "]"
  | .object [] => "\x7b\x7d"
  | .object entries => "\x7b " ++ ", ".intercalate (inlineEntries entries) ++ " \x7d"

def inlineItems : List Document → String
  | [] => ""
  | item :: rest => "    " ++ inline item ++ ",\n" ++ inlineItems rest

def inlineEntries : List (String × Document) → List String
  | [] => []
  | (key, d) :: rest => (quoteKey key ++ " = " ++ inline d) :: inlineEntries rest

end

def isObject : Document → Bool
  | .object _ => true
  | _ => false

/-- Whether a value has a header of its own. -/
def isSection : Document → Bool
  | .object _ => true
  | .list items => !items.isEmpty && items.all isObject
  | _ => false

def isNull : Document → Bool
  | .null => true
  | _ => false

/-- The keys of a table that stand on lines of their own. -/
def plainLines (entries : List (String × Document)) : String :=
  String.join ((entries.filter fun (_, d) => !isSection d && !isNull d).map fun (key, d) =>
    quoteKey key ++ " = " ++ inline d ++ "\n")

mutual

/-- The parts of a table under headers. -/
def sections (path : List String) : List (String × Document) → List String
  | [] => []
  | (key, d) :: rest => part (path ++ [quoteKey key]) d ++ sections path rest

def part (path : List String) : Document → List String
  | .object entries =>
    ("[" ++ ".".intercalate path ++ "]\n" ++ plainLines entries) :: sections path entries
  | .list items => if !items.isEmpty && items.all isObject then repeated path items else []
  | _ => []

def repeated (path : List String) : List Document → List String
  | [] => []
  | .object entries :: rest =>
    ("[[" ++ ".".intercalate path ++ "]]\n" ++ plainLines entries)
      :: (sections path entries ++ repeated path rest)
  | _ :: rest => repeated path rest

end

/-- A document as a text. -/
def render : Document → String
  | .object entries =>
    let first := plainLines entries
    "\n".intercalate ((if first = "" then [] else [first]) ++ sections [] entries)
  | _ => ""

end Toml

namespace Settings

def toToml (s : Settings) : String := Toml.render (.ofSettings s)

end Settings

end ScriptHost
