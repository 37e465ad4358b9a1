import ScriptHost.Settings.Toml.Draft
import ScriptHost.Settings.Toml.Scalar

/-!
# Reading TOML

A text is a row of lines: headers, which name the table that the keys after them belong to, and keys
with their values.  In lists and tables between brackets, values may stand on lines of their own.
-/

namespace ScriptHost

namespace Toml

def rules : DocumentRules where
  extraItems := true
  isUnit
    | .object [] => true
    | .list [] => true
    | _ => false

mutual

/-- A value in which lists and tables nest at most `depth` deep. -/
def value? : Nat → Nat → List Char → Option (Document × List Char)
  | 0, _, _ => none
  | fuel + 1, depth, text =>
    match text, depth with
    | '[' :: rest, depth + 1 => do
      let (items, rest) ← items? fuel depth rest
      return (.list items, rest)
    | '\x7b' :: rest, depth + 1 => do
      let (entries, rest) ← inlineEntries? fuel depth [] rest
      return (.object (Draft.finishEntries entries), rest)
    | text, _ =>
      match string? text with
      | some (content, rest) => some (.text (String.ofList content), rest)
      | none => scalar? text

/-- The items of a list up to its end, which may follow a comma. -/
def items? : Nat → Nat → List Char → Option (List Document × List Char)
  | 0, _, _ => none
  | fuel + 1, depth, text =>
    match skipSpace text with
    | ']' :: rest => some ([], rest)
    | text => do
      let (item, rest) ← value? fuel depth text
      match skipSpace rest with
      | ',' :: rest =>
        let (items, rest) ← items? fuel depth rest
        return (item :: items, rest)
      | ']' :: rest => return ([item], rest)
      | _ => none

/-- The entries of a table between braces up to its end, which may follow a comma. -/
def inlineEntries? : Nat → Nat → Drafts → List Char → Option (Drafts × List Char)
  | 0, _, _, _ => none
  | fuel + 1, depth, entries, text =>
    match skipSpace text with
    | '\x7d' :: rest => some (entries, rest)
    | text => do
      let (path, rest) ← key? text
      match skipSpace rest with
      | '=' :: rest =>
        let (d, rest) ← value? fuel depth (skipSpace rest)
        let entries ← Draft.addValue path d entries
        match skipSpace rest with
        | ',' :: rest => inlineEntries? fuel depth entries rest
        | '\x7d' :: rest => return (entries, rest)
        | _ => none
      | _ => none

end

/-- Reads lines into the table at a path. -/
def lines? : Nat → List String → Drafts → List Char → Option Drafts
  | 0, _, _, _ => none
  | fuel + 1, path, entries, text =>
    match skipSpace text with
    | [] => some entries
    | '[' :: '[' :: rest => do
      let (path, rest) ← key? rest
      match rest with
      | ']' :: ']' :: rest =>
        lines? fuel path (← Draft.openItem path entries) (← endOfLine? rest)
      | _ => none
    | '[' :: rest => do
      let (path, rest) ← key? rest
      match rest with
      | ']' :: rest => lines? fuel path (← Draft.openTable path entries) (← endOfLine? rest)
      | _ => none
    | text => do
      let (key, rest) ← key? text
      match rest with
      | '=' :: rest =>
        let (d, rest) ← value? (text.length + 1) depthLimit (skipBlanks rest)
        let entries ← Draft.change false (Draft.addValue key d) path entries
        lines? fuel path entries (← endOfLine? rest)
      | _ => none

/-- Reads a whole text, which may begin with a mark of its encoding. -/
def parse? (text : String) : Option Document := do
  let text := match text.toList with
    | '\ufeff' :: rest => rest
    | text => text
  let entries ← lines? (text.length + 1) [] [] text
  return .object (Draft.finishEntries entries)

end Toml

namespace Settings

/-- Reads settings out of a TOML text. -/
def ofToml? (text : String) : Option Settings := do
  Document.asSettings Toml.rules (← Toml.parse? text)

end Settings

end ScriptHost
