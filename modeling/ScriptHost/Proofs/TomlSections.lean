import Mathlib.Data.List.Nodup
import ScriptHost.Proofs.TomlLines

/-!
# Printed tables read back

The printer writes a table as the lines of its plain keys and then, each under its own header, the
tables inside it.  The reader builds the document from its root; a header moves it to another place,
where the lines after it add their keys.
-/

namespace ScriptHost

namespace Toml

/-! ## Places of a draft -/

variable {key : String} {path : List String} {entries : Drafts}

/-- A path is followed one part after the other. -/
theorem change_append (f : Drafts → Option Drafts) (path later : List String) (entries : Drafts) :
    Draft.change false f (path ++ later) entries =
      Draft.change false (Draft.change false f later) path entries := by
  induction path generalizing entries with
  | nil => rfl
  | cons key path ih =>
    rw [List.cons_append, Draft.change, Draft.change]
    simp only [ih, Bool.false_eq_true, false_and]

theorem lookup_append_entry {α : Type} {key other : String} {entries : List (String × α)}
    (fresh : entries.lookup key = none) (different : key ≠ other) (a : α) :
    (entries ++ [(other, a)]).lookup key = none := by
  rw [List.lookup_append, fresh, Option.none_or, List.lookup_cons, beq_eq_false_iff_ne.2 different]
  rfl

theorem lookup_append_self {α : Type} {key : String} {entries : List (String × α)}
    (fresh : entries.lookup key = none) (a : α) :
    (entries ++ [(key, a)]).lookup key = some a := by
  rw [List.lookup_append, fresh, Option.none_or, List.lookup_cons, beq_self_eq_true]

theorem put_append (fresh : entries.lookup key = none) (old d : Draft) :
    Draft.put key d (entries ++ [(key, old)]) = entries ++ [(key, d)] := by
  have others : ∀ entry ∈ entries, entry.1 ≠ key := by
    intro entry inside same
    have differs := List.lookup_eq_none_iff.1 fresh entry inside
    exact bne_iff_ne.1 differs same.symm
  have kept : entries.map (fun entry => (entry.1, if entry.1 = key then d else entry.2)) =
      entries := by
    refine (List.map_congr_left fun entry inside => ?_).trans (List.map_id entries)
    rw [if_neg (others entry inside)]
    rfl
  have changed : [(key, old)].map (fun entry => (entry.1, if entry.1 = key then d else entry.2)) =
      [(key, d)] := by
    rw [List.map_singleton, if_pos rfl]
  rw [Draft.put, lookup_append_self fresh, List.map_append]
  exact (congrArg (· ++ _) kept).trans (congrArg (entries ++ ·) changed)

/-- `around` puts a table at the end of a path. -/
def Cursor (path : List String) (around : Drafts → Drafts) : Prop :=
  ∀ f entries, Draft.change false f path (around entries) = (f entries).map around

theorem Cursor.root : Cursor [] id := by
  intro f entries
  rw [Option.map_id]
  rfl

/-- What holds a table under a key: a table of its own or the last one of a list. -/
inductive Holder : (Drafts → Draft) → Prop where
  | table (opening : Opening) : Holder (.table opening)
  | tables (done : List Drafts) : Holder fun inner => .tables (done ++ [inner])

theorem Cursor.enter {around : Drafts → Drafts} {holder : Drafts → Draft}
    (cursor : Cursor path around) (fresh : entries.lookup key = none) (holds : Holder holder) :
    Cursor (path ++ [key]) fun inner => around (entries ++ [(key, holder inner)]) := by
  intro f inner
  rw [change_append, cursor, Draft.change, lookup_append_self fresh]
  cases holds with
  | table opening =>
    simp only [Bool.false_eq_true, false_and, if_false, Draft.change]
    cases f inner with
    | none => rfl
    | some inner => exact congrArg (fun entries => some (around entries)) (put_append fresh _ _)
  | tables done =>
    simp only [Bool.false_eq_true, false_and, if_false, Draft.change, List.getLast?_concat,
      List.dropLast_concat]
    cases f inner with
    | none => rfl
    | some inner => exact congrArg (fun entries => some (around entries)) (put_append fresh _ _)

/-! ## Runs of the reader -/

/-- Reading a text leads from one table and draft to others, in a step at most for a character. -/
def Leads (text : List Char) (path : List String) (before : Drafts) (target : List String)
    (after : Drafts) : Prop :=
  ∃ steps ≤ text.length, ∀ fuel rest,
    lines? (fuel + steps) path before (text ++ rest) = lines? fuel target after rest

section

variable {text more : List Char} {target final : List String} {before middle after : Drafts}

theorem Leads.nil (path : List String) (before : Drafts) : Leads [] path before path before :=
  ⟨0, Nat.le_refl _, fun _ _ => rfl⟩

theorem Leads.append (first : Leads text path before target middle)
    (second : Leads more target middle final after) :
    Leads (text ++ more) path before final after := by
  obtain ⟨steps, short, first⟩ := first
  obtain ⟨others, short', second⟩ := second
  refine ⟨others + steps, ?_, fun fuel rest => ?_⟩
  · rw [List.length_append]
    omega
  · rw [← Nat.add_assoc, List.append_assoc, first, second]

theorem lines?_newline (fuel : Nat) (rest : List Char) :
    lines? fuel path before ('\n' :: rest) = lines? fuel path before rest := by
  cases fuel with
  | zero => rfl
  | succ fuel => rw [lines?, lines?, skipSpace_newline]

/-- Nothing happens in a blank line. -/
theorem Leads.newline (leads : Leads text path before target after) :
    Leads ('\n' :: text) path before target after := by
  obtain ⟨steps, short, leads⟩ := leads
  refine ⟨steps, Nat.le_succ_of_le short, fun fuel rest => ?_⟩
  rw [List.cons_append, lines?_newline, leads]

/-- Nothing else can be read after reading nothing. -/
theorem Leads.eq_of_nil (leads : Leads [] path before target after) : before = after := by
  obtain ⟨steps, short, leads⟩ := leads
  obtain rfl := Nat.le_zero.1 short
  exact Option.some.inj (leads 1 [])

end

/-- The parts of a document one after the other. -/
inductive PartsLead : List String → List String → Drafts → List String → Drafts → Prop where
  | nil (path : List String) (before : Drafts) : PartsLead [] path before path before
  | cons {part : String} {parts path target final : List String} {before middle after : Drafts}
      (first : Leads part.toList path before target middle)
      (others : PartsLead parts target middle final after) :
      PartsLead (part :: parts) path before final after

section

variable {parts more target final : List String} {before middle after : Drafts}

theorem PartsLead.append (first : PartsLead parts path before target middle)
    (second : PartsLead more target middle final after) :
    PartsLead (parts ++ more) path before final after := by
  induction first with
  | nil => exact second
  | cons part _ ih => exact .cons part (ih second)

/-- Blank lines may stand between the parts. -/
theorem PartsLead.intercalate (leads : PartsLead parts path before target after) :
    Leads ("\n".intercalate parts).toList path before target after := by
  induction leads with
  | nil path before => exact .nil path before
  | cons first others ih =>
    cases others with
    | nil =>
      rw [String.intercalate_singleton]
      exact first
    | cons next others =>
      rw [String.intercalate_cons_cons, String.toList_append, String.toList_append,
        List.append_assoc]
      exact first.append ih.newline

end

/-! ## Documents -/

/--
Documents in which sections nest no deeper than a bound.  Keys are bare words, none of them comes
twice in one table, and a value that is no section stands on a line.
-/
inductive Printable : Nat → Document → Prop where
  | null (depth : Nat) : Printable depth .null
  | line (depth : Nat) {d : Document} (onLine : OnLine d) : Printable depth d
  | table {depth : Nat} {entries : List (String × Document)}
      (distinct : (entries.map Prod.fst).Nodup)
      (bare : ∀ entry ∈ entries, isBareKey entry.1 = true)
      (each : ∀ entry ∈ entries, Printable depth entry.2) : Printable (depth + 1) (.object entries)
  | tables {depth : Nat} {items : List (List (String × Document))} (present : items ≠ [])
      (each : ∀ entries ∈ items, Printable depth (.object entries)) :
      Printable depth (.list (items.map .object))

/-- The entries that stand on lines of their own. -/
def plainPart (entries : List (String × Document)) : List (String × Document) :=
  entries.filter fun entry => !isSection entry.2 && !isNull entry.2

mutual

/-- The order in which a document is written, without what is null. -/
def arranged : Document → Document
  | .object entries => .object (plainPart entries ++ arrangedSections entries)
  | .list items => .list (arrangedItems items)
  | d => d

def arrangedSections : List (String × Document) → List (String × Document)
  | [] => []
  | (key, d) :: rest =>
    if isSection d then (key, arranged d) :: arrangedSections rest else arrangedSections rest

def arrangedItems : List Document → List Document
  | [] => []
  | item :: rest => arranged item :: arrangedItems rest

end

theorem isSection_of_onLine {d : Document} (onLine : OnLine d) :
    isSection d = false ∧ isNull d = false := by
  cases onLine with
  | bool b => exact ⟨rfl, rfl⟩
  | text s => exact ⟨rfl, rfl⟩
  | texts items =>
    cases items with
    | nil => exact ⟨rfl, rfl⟩
    | cons s items => exact ⟨rfl, rfl⟩

/-- What is printable is null, stands on a line or is a section. -/
theorem Printable.kinds {depth : Nat} {d : Document} (printable : Printable depth d) :
    d = .null ∨ OnLine d ∨ isSection d = true := by
  cases printable with
  | null => exact .inl rfl
  | line _ onLine => exact .inr (.inl onLine)
  | table => exact .inr (.inr rfl)
  | @tables _ items present each =>
    refine .inr (.inr ?_)
    cases items with
    | nil => exact absurd rfl present
    | cons entries items => simp [isSection, isObject]

theorem Printable.parts {depth : Nat} {entries : List (String × Document)}
    (printable : Printable (depth + 1) (.object entries)) :
    (entries.map Prod.fst).Nodup ∧ (∀ entry ∈ entries, isBareKey entry.1 = true) ∧
      ∀ entry ∈ entries, Printable depth entry.2 := by
  cases printable with
  | line _ onLine => cases onLine
  | table distinct bare each => exact ⟨distinct, bare, each⟩

theorem onLine_of_mem_plainPart {depth : Nat} {entries : List (String × Document)}
    (each : ∀ entry ∈ entries, Printable depth entry.2) {entry : String × Document}
    (inside : entry ∈ plainPart entries) : OnLine entry.2 := by
  simp only [plainPart, List.mem_filter, Bool.and_eq_true, Bool.not_eq_true'] at inside
  obtain ⟨inside, plain, some⟩ := inside
  obtain null | onLine | isSection := (each entry inside).kinds
  · rw [null] at some
    cases some
  · exact onLine
  · cases plain.symm.trans isSection

/-! ## Lines of a table -/

def entryLine (entry : String × Document) : String :=
  quoteKey entry.1 ++ " = " ++ inline entry.2 ++ "\n"

theorem finishEntries_value (entries : List (String × Document)) :
    Draft.finishEntries (entries.map fun entry => (entry.1, .value entry.2)) = entries := by
  induction entries with
  | nil => rfl
  | cons entry entries ih => rw [List.map_cons, Draft.finishEntries, Draft.finish, ih]

theorem finishEntries_append (first second : Drafts) :
    Draft.finishEntries (first ++ second) =
      Draft.finishEntries first ++ Draft.finishEntries second := by
  induction first with
  | nil => rfl
  | cons entry first ih => rw [List.cons_append, Draft.finishEntries, Draft.finishEntries, ih]; rfl

theorem Cursor.leads_line {around : Drafts → Drafts} (cursor : Cursor path around)
    (fresh : entries.lookup key = none) (bare : isBareKey key = true) {d : Document}
    (onLine : OnLine d) :
    Leads (entryLine (key, d)).toList path (around entries) path
      (around (entries ++ [(key, .value d)])) := by
  refine ⟨1, ?_, fun fuel rest => ?_⟩
  · simp only [entryLine, String.toList_append, List.length_append, String.reduceToList,
      List.length_cons]
    omega
  · rw [entryLine, lines?_entry bare onLine, cursor]
    simp [Draft.addValue, Draft.change, fresh]

theorem ne_of_mem {α : Type} {entries : List (String × α)} (new : key ∉ entries.map Prod.fst)
    {entry : String × α} (inside : entry ∈ entries) : entry.1 ≠ key := by
  intro same
  rw [← same] at new
  exact new (List.mem_map_of_mem inside)

/-- Lines add their keys to the table that they belong to. -/
theorem Cursor.leads_lines {around : Drafts → Drafts} (cursor : Cursor path around)
    {lines : List (String × Document)} (distinct : (lines.map Prod.fst).Nodup)
    (bare : ∀ entry ∈ lines, isBareKey entry.1 = true) (onLine : ∀ entry ∈ lines, OnLine entry.2)
    (fresh : ∀ entry ∈ lines, entries.lookup entry.1 = none) :
    Leads (String.join (lines.map entryLine)).toList path (around entries) path
      (around (entries ++ lines.map fun entry => (entry.1, .value entry.2))) := by
  induction lines generalizing entries with
  | nil =>
    simp only [List.map_nil, List.append_nil]
    exact .nil path _
  | cons entry lines ih =>
    obtain ⟨bareFirst, bare⟩ := List.forall_mem_cons.1 bare
    obtain ⟨lineFirst, onLine⟩ := List.forall_mem_cons.1 onLine
    obtain ⟨freshFirst, fresh⟩ := List.forall_mem_cons.1 fresh
    obtain ⟨new, distinct⟩ := List.nodup_cons.1 distinct
    have first := cursor.leads_line freshFirst bareFirst lineFirst
    have others := ih distinct bare onLine fun other inside =>
      lookup_append_entry (fresh other inside) (ne_of_mem new inside) (.value entry.2)
    rw [List.map_cons, String.join_cons, String.toList_append, List.map_cons,
      ← List.singleton_append, ← List.append_assoc]
    exact first.append others

/-! ## Sections of a table -/

/-- A place in a document at which sections may still nest to a depth. -/
structure Place (depth : Nat) (path : List String) (around : Drafts → Drafts) : Prop where
  cursor : Cursor path around
  bare : ∀ key ∈ path, isBareKey key = true
  short : path.length + depth ≤ depthLimit

section

variable {depth : Nat} {around : Drafts → Drafts} {before : Drafts} {holder : Drafts → Draft}

theorem Place.enter (place : Place (depth + 1) path around) (fresh : before.lookup key = none)
    (bare : isBareKey key = true) (holds : Holder holder) :
    Place depth (path ++ [key]) fun inner => around (before ++ [(key, holder inner)]) where
  cursor := place.cursor.enter fresh holds
  bare := by
    intro other inside
    rcases List.mem_append.1 inside with inside | inside
    · exact place.bare other inside
    · rw [List.mem_singleton.1 inside]
      exact bare
  short := by
    have short := place.short
    rw [List.length_append, List.length_singleton]
    omega

theorem Place.leads_header (place : Place (depth + 1) path around)
    (fresh : before.lookup key = none) (bare : isBareKey key = true) (current : List String) :
    Leads ("[" ++ ".".intercalate (path ++ [key]) ++ "]\n").toList current (around before)
      (path ++ [key]) (around (before ++ [(key, .table .header [])])) := by
  have inner := place.enter fresh bare (.table .header)
  have short := inner.short
  have opened : Draft.openTable (path ++ [key]) (around before) =
      some (around (before ++ [(key, .table .header [])])) := by
    simp only [Draft.openTable, List.getLast?_concat, List.dropLast_concat]
    rw [place.cursor, fresh]
    rfl
  refine ⟨1, ?_, fun fuel rest => ?_⟩
  · simp only [String.toList_append, List.length_append, String.reduceToList, List.length_cons]
    omega
  · rw [lines?_header (by simp) inner.bare (by omega), opened]
    rfl

/-- The tables of a list under a key, if there are any yet. -/
def listed (key : String) : List Drafts → Drafts
  | [] => []
  | first :: others => [(key, .tables (first :: others))]

theorem listed_append (key : String) (done : List Drafts) (inner : Drafts) :
    listed key (done ++ [inner]) = [(key, .tables (done ++ [inner]))] := by
  cases done with
  | nil => rfl
  | cons first others => rfl

theorem Place.leads_item (place : Place (depth + 1) path around)
    (fresh : before.lookup key = none) (bare : isBareKey key = true) (done : List Drafts)
    (current : List String) :
    Leads ("[[" ++ ".".intercalate (path ++ [key]) ++ "]]\n").toList current
      (around (before ++ listed key done)) (path ++ [key])
      (around (before ++ [(key, .tables (done ++ [[]]))])) := by
  have inner := place.enter fresh bare (.tables done)
  have short := inner.short
  have opened : Draft.openItem (path ++ [key]) (around (before ++ listed key done)) =
      some (around (before ++ [(key, .tables (done ++ [[]]))])) := by
    simp only [Draft.openItem, List.getLast?_concat, List.dropLast_concat]
    rw [place.cursor]
    cases done with
    | nil =>
      rw [listed, List.append_nil, fresh]
      rfl
    | cons first others =>
      rw [listed, lookup_append_self fresh]
      simp only [put_append fresh, Option.map_some]
  refine ⟨1, ?_, fun fuel rest => ?_⟩
  · simp only [String.toList_append, List.length_append, String.reduceToList, List.length_cons]
    omega
  · rw [lines?_item (by simp) inner.bare (by omega), opened]
    rfl

/-- What it takes to read the sections of a table. -/
def Follows (depth : Nat) : Prop :=
  ∀ {path : List String} {around : Drafts → Drafts} {entries : List (String × Document)}
    {before : Drafts} (current : List String), Place depth path around →
    Printable (depth + 1) (.object entries) →
    (∀ entry ∈ entries, isSection entry.2 = true → before.lookup entry.1 = none) →
    ∃ target after, Draft.finishEntries after = arrangedSections entries ∧
      PartsLead (sections path entries) current (around before) target (around (before ++ after))

/-- No section has its key on a line. -/
theorem lookup_plainPart {entries : List (String × Document)}
    (distinct : (entries.map Prod.fst).Nodup) {entry : String × Document}
    (inside : entry ∈ entries) (nested : isSection entry.2 = true) :
    ((plainPart entries).map fun entry => (entry.1, Draft.value entry.2)).lookup entry.1 =
      none := by
  refine List.lookup_eq_none_iff.2 fun line among => bne_iff_ne.2 fun same => ?_
  obtain ⟨other, onLine, rfl⟩ := List.mem_map.1 among
  obtain ⟨member, plain⟩ := List.mem_filter.1 onLine
  obtain rfl := List.inj_on_of_nodup_map distinct inside member same
  rw [nested] at plain
  cases plain

/-- The lines of a table and its sections. -/
theorem Follows.content {entries : List (String × Document)} (follows : Follows depth)
    (place : Place depth path around) (printable : Printable (depth + 1) (.object entries)) :
    ∃ target first inner,
      Draft.finishEntries inner = plainPart entries ++ arrangedSections entries ∧
      Leads (plainLines entries).toList path (around []) path (around first) ∧
      PartsLead (sections path entries) path (around first) target (around inner) := by
  obtain ⟨distinct, bare, each⟩ := printable.parts
  have plain : (plainPart entries).Sublist entries := List.filter_sublist
  have lines : Leads (plainLines entries).toList path (around []) path
      (around ((plainPart entries).map fun entry => (entry.1, .value entry.2))) :=
    place.cursor.leads_lines (distinct.sublist (plain.map Prod.fst))
      (fun entry among => bare entry (plain.subset among))
      (fun entry among => onLine_of_mem_plainPart each among) (fun _ _ => rfl)
  obtain ⟨target, after, finished, others⟩ := follows path place printable
    (fun _ among => lookup_plainPart distinct among)
  refine ⟨target, _, _, ?_, lines, others⟩
  rw [finishEntries_append, finishEntries_value, finished]

/-- A header, the lines after it and the sections of the table. -/
theorem Follows.table {entries : List (String × Document)} {current : List String} {start : Drafts}
    {header : String} (follows : Follows depth) (place : Place (depth + 1) path around)
    (fresh : before.lookup key = none) (bare : isBareKey key = true) (holds : Holder holder)
    (printable : Printable (depth + 1) (.object entries))
    (opens : Leads header.toList current start (path ++ [key])
      (around (before ++ [(key, holder [])]))) :
    ∃ target inner, Draft.finishEntries inner = plainPart entries ++ arrangedSections entries ∧
      PartsLead ((header ++ plainLines entries) :: sections (path ++ [key]) entries) current start
        target (around (before ++ [(key, holder inner)])) := by
  obtain ⟨target, first, inner, finished, lines, others⟩ :=
    Follows.content follows (place.enter fresh bare holds) printable
  refine ⟨target, inner, finished, .cons ?_ others⟩
  rw [String.toList_append]
  exact opens.append lines

/-- The tables of a list, each under a header of its own. -/
theorem Follows.tables {items : List (List (String × Document))} (follows : Follows depth)
    (place : Place (depth + 1) path around) (fresh : before.lookup key = none)
    (bare : isBareKey key = true)
    (each : ∀ entries ∈ items, Printable (depth + 1) (.object entries)) (done : List Drafts)
    (current : List String) :
    ∃ target all, Draft.finishItems all = arrangedItems (items.map .object) ∧
      PartsLead (repeated (path ++ [key]) (items.map .object)) current
        (around (before ++ listed key done)) target
        (around (before ++ listed key (done ++ all))) := by
  induction items generalizing done current with
  | nil =>
    refine ⟨current, [], rfl, ?_⟩
    rw [List.append_nil]
    exact .nil current _
  | cons entries items ih =>
    obtain ⟨first, others⟩ := List.forall_mem_cons.1 each
    obtain ⟨middle, inner, finished, leads⟩ := follows.table place fresh bare (.tables done) first
      (place.leads_item fresh bare done current)
    obtain ⟨target, all, finishedAll, leadsAll⟩ := ih others (done ++ [inner]) middle
    refine ⟨target, inner :: all, ?_, ?_⟩
    · rw [Draft.finishItems, finished, finishedAll]
      rfl
    · rw [listed_append, List.append_assoc] at leadsAll
      exact leads.append leadsAll

/-- A section under its headers. -/
theorem section_leads {d : Document} (lower : ∀ n, depth = n + 1 → Follows n)
    (place : Place depth path around) (fresh : before.lookup key = none)
    (bare : isBareKey key = true) (printable : Printable depth d) (nested : isSection d = true)
    (current : List String) :
    ∃ target draft, draft.finish = arranged d ∧
      PartsLead (part (path ++ [key]) d) current (around before) target
        (around (before ++ [(key, draft)])) := by
  cases printable with
  | null => cases nested
  | line _ onLine => cases nested.symm.trans (isSection_of_onLine onLine).1
  | @table depth entries distinct bareKeys each =>
    obtain ⟨target, inner, finished, leads⟩ := Follows.table (lower depth rfl) place fresh bare
      (.table .header) (.table distinct bareKeys each) (place.leads_header fresh bare current)
    refine ⟨target, .table .header inner, ?_, leads⟩
    rw [Draft.finish, finished, arranged]
  | @tables _ items present each =>
    obtain ⟨first, others, rfl⟩ := List.exists_cons_of_ne_nil present
    have printable := each first List.mem_cons_self
    cases printable with
    | line _ onLine => cases onLine
    | @table depth _ _ _ _ =>
      obtain ⟨target, all, finished, leads⟩ := Follows.tables (lower depth rfl) place fresh bare
        each [] current
      cases all with
      | nil => cases finished
      | cons inner all =>
        rw [listed, List.append_nil, List.nil_append, listed] at leads
        refine ⟨target, .tables (inner :: all), ?_, ?_⟩
        · rw [Draft.finish, finished, arranged]
        · rw [isSection] at nested
          rw [part, if_pos nested]
          exact leads

theorem part_of_plain {d : Document} (plain : isSection d = false) (path : List String) :
    part path d = [] := by
  cases d with
  | object entries => cases plain
  | list items =>
    rw [part, if_neg]
    intro nested
    cases plain.symm.trans nested
  | _ => rfl

theorem Printable.tail {entry : String × Document} {entries : List (String × Document)}
    (printable : Printable (depth + 1) (.object (entry :: entries))) :
    Printable (depth + 1) (.object entries) := by
  obtain ⟨distinct, bare, each⟩ := printable.parts
  exact .table (List.nodup_cons.1 distinct).2 (List.forall_mem_cons.1 bare).2
    (List.forall_mem_cons.1 each).2

/-- Sections are read one after the other. -/
theorem follows_of_lower (lower : ∀ n, depth = n + 1 → Follows n) : Follows depth := by
  intro path around entries before current place printable fresh
  induction entries generalizing before current with
  | nil =>
    refine ⟨current, [], rfl, ?_⟩
    rw [List.append_nil, sections]
    exact .nil current _
  | cons entry entries ih =>
    have tail := printable.tail
    obtain ⟨freshFirst, freshOthers⟩ := List.forall_mem_cons.1 fresh
    obtain ⟨distinct, bare, each⟩ := printable.parts
    obtain ⟨key, d⟩ := entry
    have bareFirst : isBareKey key = true := bare _ List.mem_cons_self
    have quoted : quoteKey key = key := if_pos bareFirst
    rw [sections, quoted, arrangedSections]
    by_cases nested : isSection d = true
    · obtain ⟨middle, draft, finished, leads⟩ := section_leads lower place (freshFirst nested)
        bareFirst (each _ List.mem_cons_self) nested current
      have new := (List.nodup_cons.1 distinct).1
      obtain ⟨target, after, finishedAll, leadsAll⟩ := ih middle tail fun other inside nested =>
        lookup_append_entry (freshOthers other inside nested) (ne_of_mem new inside) draft
      refine ⟨target, (key, draft) :: after, ?_, ?_⟩
      · rw [if_pos nested, Draft.finishEntries, finished, finishedAll]
      · rw [List.append_assoc] at leadsAll
        exact leads.append leadsAll
    · rw [if_neg nested, part_of_plain (by simpa using nested), List.nil_append]
      exact ih current tail freshOthers

theorem follows (depth : Nat) : Follows depth := by
  induction depth with
  | zero => exact follows_of_lower fun n same => by cases same
  | succ depth ih =>
    apply follows_of_lower
    intro n same
    cases same
    exact ih

end

/-! ## Whole texts -/

/-- No line starts with a mark of the encoding. -/
theorem lines?_mark (fuel : Nat) (path : List String) (before : Drafts) (rest : List Char) :
    lines? fuel path before ('\ufeff' :: rest) = none := by
  cases fuel with
  | zero => rfl
  | succ fuel =>
    rw [lines?, skipSpace_dark (by decide)]
    rfl

/-- A text that is read to its end is a document. -/
theorem parse?_of_leads {text : String} {target : List String} {after : Drafts}
    (leads : Leads text.toList [] [] target after) :
    parse? text = some (.object (Draft.finishEntries after)) := by
  obtain ⟨steps, short, read⟩ := leads
  rw [String.length_toList] at short
  have whole : lines? (text.toList.length + 1) [] [] text.toList = some after := by
    have finished := read (text.length - steps + 1) []
    rw [List.append_nil] at finished
    rw [String.length_toList, show text.length + 1 = text.length - steps + 1 + steps by omega,
      finished]
    rfl
  have unmarked : ∀ rest, text.toList ≠ '\ufeff' :: rest := by
    intro rest same
    rw [same, lines?_mark] at whole
    cases whole
  rw [parse?]
  split
  · next same => exact absurd same (unmarked _)
  · rw [whole]
    rfl

/-- A whole text is read as the document that it was printed for. -/
theorem parse?_render {depth : Nat} {entries : List (String × Document)}
    (shallow : depth ≤ depthLimit) (printable : Printable (depth + 1) (.object entries)) :
    parse? (render (.object entries)) = some (arranged (.object entries)) := by
  have place : Place depth [] id := ⟨.root, List.forall_mem_nil _, by simpa using shallow⟩
  obtain ⟨target, first, inner, finished, lines, others⟩ :=
    Follows.content (follows depth) place printable
  have leads : PartsLead ((if plainLines entries = "" then [] else [plainLines entries]) ++
      sections [] entries) [] [] target inner := by
    split
    · next none =>
      rw [none] at lines
      have same : [] = first := lines.eq_of_nil
      rw [same]
      exact others
    · exact .cons lines others
  have read := parse?_of_leads leads.intercalate
  rw [finished] at read
  exact read

end Toml

end ScriptHost
