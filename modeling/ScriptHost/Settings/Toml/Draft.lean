import ScriptHost.Settings.Document

/-!
# Tables under construction

Headers and dotted keys add to the tables of a document as they come.  A key may be given once, and
a table may be opened once: by a header, or by the dotted keys of one table.
-/

namespace ScriptHost

namespace Toml

/-- How a table came about. -/
inductive Opening where
  /-- By a longer header. -/
  | implied
  | header
  | dotted
deriving DecidableEq, Repr

/-- A document that is not finished yet. -/
inductive Draft where
  | value (d : Document)
  | table (opening : Opening) (entries : List (String × Draft))
  | tables (items : List (List (String × Draft)))
deriving Inhabited

abbrev Drafts := List (String × Draft)

namespace Draft

def put (key : String) (d : Draft) (entries : Drafts) : Drafts :=
  match entries.lookup key with
  | none => entries ++ [(key, d)]
  | some _ => entries.map fun (other, old) => (other, if other = key then d else old)

/--
Changes the table at a path, making those on the way that are missing.  A dotted key may lead
through a table that only longer headers have named and through the last one of a list, but the
table that it ends in has to be one of dotted keys.
-/
def change (dotted : Bool) (f : Drafts → Option Drafts) : List String → Drafts → Option Drafts
  | [], entries => f entries
  | key :: path, entries => do
    match entries.lookup key with
    | none =>
      let inner ← change dotted f path []
      return put key (.table (if dotted then .dotted else .implied) inner) entries
    | some (.table opening inner) =>
      if dotted ∧ (opening = .header ∨ (path = [] ∧ opening = .implied)) then none
      else return put key (.table opening (← change dotted f path inner)) entries
    | some (.tables items) =>
      if dotted ∧ path = [] then none
      else
        match items.getLast? with
        | none => none
        | some last => do
          let changed ← change dotted f path last
          return put key (.tables (items.dropLast ++ [changed])) entries
    | some (.value _) => none

/-- Adds a value under a key that is not there yet. -/
def addValue (path : List String) (d : Document) (entries : Drafts) : Option Drafts :=
  match path.getLast? with
  | none => none
  | some key => change true (fun table =>
      if (table.lookup key).isSome then none else some (table ++ [(key, .value d)]))
      path.dropLast entries

def openTable (path : List String) (entries : Drafts) : Option Drafts :=
  match path.getLast? with
  | none => none
  | some key => change false (fun table =>
      match table.lookup key with
      | none => some (table ++ [(key, .table .header [])])
      | some (.table .implied inner) => some (put key (.table .header inner) table)
      | _ => none) path.dropLast entries

def openItem (path : List String) (entries : Drafts) : Option Drafts :=
  match path.getLast? with
  | none => none
  | some key => change false (fun table =>
      match table.lookup key with
      | none => some (table ++ [(key, .tables [[]])])
      | some (.tables items) => some (put key (.tables (items ++ [[]])) table)
      | _ => none) path.dropLast entries

mutual

def finish : Draft → Document
  | .value d => d
  | .table _ entries => .object (finishEntries entries)
  | .tables items => .list (finishItems items)

def finishEntries : List (String × Draft) → List (String × Document)
  | [] => []
  | (key, d) :: rest => (key, d.finish) :: finishEntries rest

def finishItems : List (List (String × Draft)) → List Document
  | [] => []
  | entries :: rest => .object (finishEntries entries) :: finishItems rest

end

end Draft

end Toml

end ScriptHost
