import ScriptHost.Number.Numeral

/-!
# Texts and keys of TOML

A text is escaped or taken as it is, and stands on one line or on several.  A key is a row of parts
with dots between them; a part is a bare word or a text on one line.
-/

namespace ScriptHost

namespace Toml

def isBlank (c : Char) : Bool := c == ' ' || c == '\t'

def skipBlanks (text : List Char) : List Char := text.dropWhile isBlank

/-- Control characters that stand nowhere in a text. -/
def isForbidden (c : Char) : Bool := (c.toNat < 0x20 && c != '\t') || c.toNat == 0x7f

/-- The text after a line end. -/
def lineEnd? : List Char → Option (List Char)
  | '\n' :: rest => some rest
  | '\r' :: '\n' :: rest => some rest
  | _ => none

/-- The text after a comment, if one is there; it ends before a line end. -/
def skipComment : List Char → List Char
  | '#' :: rest => rest.dropWhile (!isForbidden ·)
  | text => text

/-- The text after blanks and a comment up to the end of the line. -/
def endOfLine? (text : List Char) : Option (List Char) :=
  match skipComment (skipBlanks text) with
  | [] => some []
  | rest => lineEnd? rest

/-- Skips the rest of a comment, if one is open, and then blanks, comments and line ends. -/
def skipFrom (comment : Bool) : List Char → List Char
  | [] => []
  | c :: rest =>
    if c = '\n' then skipFrom false rest
    else if c = '\r' ∧ rest.head? = some '\n' then skipFrom comment rest
    else if comment then if isForbidden c then c :: rest else skipFrom true rest
    else if isBlank c then skipFrom false rest
    else if c = '#' then skipFrom true rest
    else c :: rest

/-- Skips blanks, comments and line ends. -/
def skipSpace (text : List Char) : List Char := skipFrom false text

/-- A character given by hexadecimal digits. -/
def codePoint? (count : Nat) (text : List Char) : Option (Char × List Char) :=
  let (value, found, _) := Numeral.digits 16 (text.take count) 0 0
  if found = count ∧ value.isValidChar then some (Char.ofNat value, text.drop count) else none

/-- The character of an escape after its backslash. -/
def escape? : List Char → Option (Char × List Char)
  | 'b' :: rest => some ('\x08', rest)
  | 't' :: rest => some ('\t', rest)
  | 'n' :: rest => some ('\n', rest)
  | 'f' :: rest => some ('\x0c', rest)
  | 'r' :: rest => some ('\r', rest)
  | 'e' :: rest => some ('\x1b', rest)
  | '"' :: rest => some ('"', rest)
  | '\\' :: rest => some ('\\', rest)
  | 'x' :: rest => codePoint? 2 rest
  | 'u' :: rest => codePoint? 4 rest
  | 'U' :: rest => codePoint? 8 rest
  | _ => none

/-- The content of a text on one line after its opening quote. -/
def basic? : Nat → List Char → Option (List Char × List Char)
  | 0, _ => none
  | _ + 1, [] => none
  | fuel + 1, c :: rest =>
    if c = '"' then some ([], rest)
    else if c = '\\' then do
      let (c, rest) ← escape? rest
      let (content, rest) ← basic? fuel rest
      return (c :: content, rest)
    else if isForbidden c then none
    else do
      let (content, rest) ← basic? fuel rest
      return (c :: content, rest)

/-- The content of a text that is taken as it is. -/
def literal? (text : List Char) : Option (List Char × List Char) :=
  let content := text.takeWhile fun c => c != '\'' && !isForbidden c
  match text.drop content.length with
  | '\'' :: rest => some (content, rest)
  | _ => none

/-- The quotes of a run that belong to the content, if the run closes a long text. -/
def closing? (quote : Char) (text : List Char) : Option (List Char × List Char) :=
  let run := (text.takeWhile (· == quote)).length
  if run < 3 then none
  else
    let kept := min (run - 3) 2
    some (List.replicate kept quote, text.drop (kept + 3))

/-- Skips blanks and line ends. -/
def skipLines : List Char → List Char
  | [] => []
  | c :: rest =>
    if isBlank c ∨ c = '\n' ∨ (c = '\r' ∧ rest.head? = some '\n') then skipLines rest
    else c :: rest

/-- The text after a backslash at the end of a line and the blank space that it joins. -/
def continued? (text : List Char) : Option (List Char) := do
  let rest ← lineEnd? (skipBlanks text)
  return skipLines rest

/-- The content of a text on several lines after its opening quotes. -/
def long? (quote : Char) : Nat → List Char → Option (List Char × List Char)
  | 0, _ => none
  | fuel + 1, text =>
    match closing? quote text with
    | some found => some found
    | none =>
      match text with
      | [] => none
      | c :: rest =>
        if c = '\\' ∧ quote = '"' then
          match continued? rest with
          | some rest => long? quote fuel rest
          | none => do
            let (c, rest) ← escape? rest
            let (content, rest) ← long? quote fuel rest
            return (c :: content, rest)
        else if isForbidden c ∧ (lineEnd? text).isNone then none
        else do
          let (content, rest) ← long? quote fuel rest
          return (c :: content, rest)

/-- A line end right after the opening quotes does not count. -/
def dropFirstLineEnd (text : List Char) : List Char := (lineEnd? text).getD text

def string? (text : List Char) : Option (List Char × List Char) :=
  match text with
  | '"' :: '"' :: '"' :: rest => long? '"' (rest.length + 1) (dropFirstLineEnd rest)
  | '\'' :: '\'' :: '\'' :: rest => long? '\'' (rest.length + 1) (dropFirstLineEnd rest)
  | '"' :: rest => basic? (rest.length + 1) rest
  | '\'' :: rest => literal? rest
  | _ => none

def isBareKeyChar (c : Char) : Bool := c.isAlphanum || c == '_' || c == '-'

/-- One part of a key. -/
def keyPart? (text : List Char) : Option (String × List Char) :=
  match text with
  | '"' :: rest => do
    let (content, rest) ← basic? (rest.length + 1) rest
    return (String.ofList content, rest)
  | '\'' :: rest => do
    let (content, rest) ← literal? rest
    return (String.ofList content, rest)
  | text =>
    let part := text.takeWhile isBareKeyChar
    if part.isEmpty then none else some (String.ofList part, text.drop part.length)

/-- How deep tables and lists may nest in a value, and how many parts a key may have. -/
def depthLimit : Nat := 80

/-- At most so many parts with dots between them, and the text after them and their blanks. -/
def keyParts? : Nat → List Char → Option (List String × List Char)
  | 0, _ => none
  | count + 1, text => do
    let (part, rest) ← keyPart? (skipBlanks text)
    match skipBlanks rest with
    | '.' :: rest =>
      let (parts, rest) ← keyParts? count rest
      return (part :: parts, rest)
    | rest => return ([part], rest)

def key? (text : List Char) : Option (List String × List Char) := keyParts? depthLimit text

end Toml

end ScriptHost
