import ScriptHost.Number.Numeral
import ScriptHost.Settings.Document

/-!
# JSON documents

The reader takes exactly the texts of the format; it does not look into numbers, since no setting is
one.  What names half a character is no setting either, and does not matter where no setting is
looked for.  The printer puts every item and every entry on a line of its own.
-/

namespace ScriptHost

namespace Json

def rules : DocumentRules where
  extraItems := false
  isUnit
    | .null => true
    | _ => false

def isBlank (c : Char) : Bool := c == ' ' || c == '\t' || c == '\n' || c == '\r'

def skipBlanks (text : List Char) : List Char := text.dropWhile isBlank

/-- The rest of a text that starts with a word. -/
def word? (word : String) (text : List Char) : Option (List Char) :=
  if word.toList.isPrefixOf text then some (text.drop word.length) else none

/-- The value of four hexadecimal digits. -/
def hex4? (text : List Char) : Option (Nat × List Char) :=
  let (value, count, _) := Numeral.digits 16 (text.take 4) 0 0
  if count = 4 then some (value, text.drop 4) else none

def shortEscape? : Char → Option Char
  | '"' => some '"'
  | '\\' => some '\\'
  | '/' => some '/'
  | 'b' => some '\x08'
  | 'f' => some '\x0c'
  | 'n' => some '\n'
  | 'r' => some '\r'
  | 't' => some '\t'
  | _ => none

/--
What an escape after its `u` stands for, if it is a character; two halves make one character, and a
half alone makes none.
-/
def codePoint? (text : List Char) : Option (Option Char × List Char) := do
  let (high, rest) ← hex4? text
  if 0xd800 ≤ high ∧ high < 0xdc00 then
    match rest with
    | '\\' :: 'u' :: rest =>
      let (low, rest) ← hex4? rest
      if 0xdc00 ≤ low ∧ low < 0xe000 then
        return (some (Char.ofNat (0x10000 + (high - 0xd800) * 0x400 + (low - 0xdc00))), rest)
      else return (none, rest)
    | rest => return (none, rest)
  else if 0xdc00 ≤ high ∧ high < 0xe000 then return (none, rest)
  else return (some (Char.ofNat high), rest)

/-- The content of a string after its opening quote, a `none` for every half of a character. -/
def string? : Nat → List Char → Option (List (Option Char) × List Char)
  | 0, _ => none
  | _ + 1, [] => none
  | fuel + 1, c :: rest =>
    if c = '"' then some ([], rest)
    else if c = '\\' then
      match rest with
      | 'u' :: rest => do
        let (c, rest) ← codePoint? rest
        let (content, rest) ← string? fuel rest
        return (c :: content, rest)
      | e :: rest => do
        let c ← shortEscape? e
        let (content, rest) ← string? fuel rest
        return (some c :: content, rest)
      | [] => none
    else if c.toNat < 0x20 then none
    else do
      let (content, rest) ← string? fuel rest
      return (some c :: content, rest)

/-- A string and the text after it; it is no text if it holds half a character. -/
def text? (text : List Char) : Option (Option String × List Char) := do
  let (content, rest) ← string? (text.length + 1) text
  return ((content.mapM id).map String.ofList, rest)

/-- At least one digit. -/
def digits? (text : List Char) : Option (List Char) :=
  match text with
  | c :: rest => if c.isDigit then some (rest.dropWhile Char.isDigit) else none
  | [] => none

/-- A number, of which only the text after it matters. -/
def number? (text : List Char) : Option (List Char) := do
  let text := match text with
    | '-' :: rest => rest
    | rest => rest
  let rest ← match text with
    | '0' :: rest => some rest
    | rest => digits? rest
  let rest ← match rest with
    | '.' :: rest => digits? rest
    | rest => some rest
  match rest with
  | c :: rest =>
    if c = 'e' ∨ c = 'E' then
      match rest with
      | '+' :: rest => digits? rest
      | '-' :: rest => digits? rest
      | rest => digits? rest
    else return c :: rest
  | [] => return []

/-- An object, if its keys are texts. -/
def ofEntries (entries : List (Option String × Document)) : Document :=
  match entries.mapM fun (key?, d) => do return (← key?, d) with
  | some entries => .object entries
  | none => .other

mutual

/-- A value with the text after it. -/
def value? : Nat → List Char → Option (Document × List Char)
  | 0, _ => none
  | fuel + 1, text =>
    match skipBlanks text with
    | '"' :: rest => do
      let (s?, rest) ← text? rest
      return (s?.elim .other .text, rest)
    | '[' :: rest =>
      match skipBlanks rest with
      | ']' :: rest => some (.list [], rest)
      | rest => do
        let (items, rest) ← items? fuel rest
        return (.list items, rest)
    | '\x7b' :: rest =>
      match skipBlanks rest with
      | '\x7d' :: rest => some (.object [], rest)
      | rest => do
        let (entries, rest) ← entries? fuel rest
        return (ofEntries entries, rest)
    | 't' :: rest => do return (.bool true, ← word? "rue" rest)
    | 'f' :: rest => do return (.bool false, ← word? "alse" rest)
    | 'n' :: rest => do return (.null, ← word? "ull" rest)
    | rest => do return (.other, ← number? rest)

/-- The items of a list up to its end. -/
def items? : Nat → List Char → Option (List Document × List Char)
  | 0, _ => none
  | fuel + 1, text => do
    let (item, rest) ← value? fuel text
    match skipBlanks rest with
    | ',' :: rest =>
      let (items, rest) ← items? fuel rest
      return (item :: items, rest)
    | ']' :: rest => return ([item], rest)
    | _ => none

/-- The entries of an object up to its end. -/
def entries? : Nat → List Char → Option (List (Option String × Document) × List Char)
  | 0, _ => none
  | fuel + 1, text =>
    match skipBlanks text with
    | '"' :: rest => do
      let (key, rest) ← text? rest
      match skipBlanks rest with
      | ':' :: rest =>
        let (d, rest) ← value? fuel rest
        match skipBlanks rest with
        | ',' :: rest =>
          let (entries, rest) ← entries? fuel rest
          return ((key, d) :: entries, rest)
        | '\x7d' :: rest => return ([(key, d)], rest)
        | _ => none
      | _ => none
    | _ => none

end

/-- Reads a whole text. -/
def parse? (text : String) : Option Document := do
  let (d, rest) ← value? (text.length + 1) text.toList
  if (skipBlanks rest).isEmpty then return d else none

def hexDigit (n : Nat) : Char := Nat.digitChar n

def escape (c : Char) : List Char :=
  if c = '"' then ['\\', '"']
  else if c = '\\' then ['\\', '\\']
  else if c = '\x08' then ['\\', 'b']
  else if c = '\x0c' then ['\\', 'f']
  else if c = '\n' then ['\\', 'n']
  else if c = '\r' then ['\\', 'r']
  else if c = '\t' then ['\\', 't']
  else if c.toNat < 0x20 then
    ['\\', 'u', '0', '0', hexDigit (c.toNat / 16), hexDigit (c.toNat % 16)]
  else [c]

def quote (s : String) : String := String.ofList ('"' :: s.toList.flatMap escape ++ ['"'])

/-- A new line with an indentation. -/
def line (depth : Nat) : String := "\n" ++ "".pushn ' ' (2 * depth)

mutual

def render (depth : Nat) : Document → String
  | .null | .other => "null"
  | .bool b => toString b
  | .text s => quote s
  | .list [] => "[]"
  | .list items => "[" ++ ",".intercalate (renderItems (depth + 1) items) ++ line depth ++ "]"
  | .object [] => "\x7b\x7d"
  | .object entries =>
    "\x7b" ++ ",".intercalate (renderEntries (depth + 1) entries) ++ line depth ++ "\x7d"

def renderItems (depth : Nat) : List Document → List String
  | [] => []
  | item :: rest => (line depth ++ render depth item) :: renderItems depth rest

def renderEntries (depth : Nat) : List (String × Document) → List String
  | [] => []
  | (key, d) :: rest =>
    (line depth ++ quote key ++ ": " ++ render depth d) :: renderEntries depth rest

end

end Json

namespace Settings

/-- Reads settings out of a JSON text. -/
def ofJson? (text : String) : Option Settings := do
  Document.asSettings Json.rules (← Json.parse? text)

def toJson (s : Settings) : String := Json.render 0 (.ofSettings s)

end Settings

end ScriptHost
