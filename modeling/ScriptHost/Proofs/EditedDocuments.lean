import ScriptHost.Proofs.JsonTexts
import ScriptHost.Proofs.TomlSections
import ScriptHost.Settings.Discovery

/-!
# Edited documents

An edit of a document takes keys away, adds others and changes the order of what is there.  What a
format writes for a document, and what it reads back, is an edit of it: the order may be another
one, and a format without a null leaves out what is null.
-/

namespace ScriptHost

namespace Document

/--
What an edit leaves of an entry: nothing, if the key is gone or held nothing, or else one entry with
the key.
-/
def Slot (gone : Bool) (key : String) (d : Document) (edited : Document → Prop)
    (after : List (String × Document)) : Prop :=
  (after.filter (·.1 == key) = [] ∧ (gone = true ∨ d = .null)) ∨
    gone = false ∧ ∃ e, after.filter (·.1 == key) = [(key, e)] ∧ edited e

mutual

/--
The document `before` with some keys gone, told by their paths, and any others added.  Nothing is
gone inside a list.
-/
def Edited (gone : List String → Bool) (before after : Document) : Prop :=
  match before with
  | .object entries => ∃ others, after = .object others ∧ EditedEntries gone entries others
  | .list items => ∃ others, after = .list others ∧ EditedItems items others
  | d => after = d

def EditedEntries (gone : List String → Bool) (before after : List (String × Document)) : Prop :=
  match before with
  | [] => True
  | (key, d) :: rest =>
    Slot (gone [key]) key d (Edited (fun path => gone (key :: path)) d) after ∧
      EditedEntries gone rest after

def EditedItems (before after : List Document) : Prop :=
  match before with
  | [] => after = []
  | item :: rest =>
    ∃ first others, after = first :: others ∧ Edited (fun _ => false) item first ∧
      EditedItems rest others

end

variable {gone : List String → Bool} {key : String}

theorem editedEntries_iff {before after : List (String × Document)} :
    EditedEntries gone before after ↔ ∀ entry ∈ before, Slot (gone [entry.1]) entry.1 entry.2
      (Edited (fun path => gone (entry.1 :: path)) entry.2) after := by
  induction before with
  | nil => simp [EditedEntries]
  | cons entry before ih => rw [EditedEntries, ih, List.forall_mem_cons]

/-- Only null is an edit that holds nothing. -/
theorem Edited.eq_null {d : Document} (edited : Edited gone d .null) : d = .null := by
  cases d with
  | null => rfl
  | object entries =>
    obtain ⟨_, impossible, -⟩ := edited
    cases impossible
  | list items =>
    obtain ⟨_, impossible, -⟩ := edited
    cases impossible
  | _ => cases edited

/-! ## Documents in the order in which they are written -/

theorem filter_plainPart (key : String) (entries : List (String × Document)) :
    (Toml.plainPart entries).filter (·.1 == key) =
      Toml.plainPart (entries.filter (·.1 == key)) := by
  rw [Toml.plainPart, Toml.plainPart, List.filter_comm]

theorem arrangedSections_eq (entries : List (String × Document)) :
    Toml.arrangedSections entries = (entries.filter fun entry => Toml.isSection entry.2).map
      fun entry => (entry.1, Toml.arranged entry.2) := by
  induction entries with
  | nil => rfl
  | cons entry entries ih =>
    rw [Toml.arrangedSections, List.filter_cons, ih]
    split <;> rfl

theorem filter_arrangedSections (key : String) (entries : List (String × Document)) :
    (Toml.arrangedSections entries).filter (·.1 == key) =
      Toml.arrangedSections (entries.filter (·.1 == key)) := by
  rw [arrangedSections_eq, arrangedSections_eq, List.filter_map, List.filter_comm]
  rfl

theorem Slot.arranged {missing : Bool} {d : Document} {edited : Document → Prop}
    {after : List (String × Document)} (slot : Slot missing key d edited after)
    (null : edited .null → d = .null) (step : ∀ e, edited e → edited (Toml.arranged e)) :
    Slot missing key d edited (Toml.plainPart after ++ Toml.arrangedSections after) := by
  rw [Slot, List.filter_append, filter_plainPart, filter_arrangedSections]
  obtain ⟨none, why⟩ | ⟨kept, e, one, isEdit⟩ := slot
  · rw [none]
    exact .inl ⟨rfl, why⟩
  · rw [one, Toml.plainPart, arrangedSections_eq]
    by_cases nested : Toml.isSection e = true
    · exact .inr ⟨kept, Toml.arranged e, by simp [nested], step e isEdit⟩
    · by_cases nothing : Toml.isNull e = true
      · have same : e = .null := by
          unfold Toml.isNull at nothing
          split at nothing
          · rfl
          · cases nothing
        exact .inl ⟨by simp [nested, nothing], .inr (null (same ▸ isEdit))⟩
      · exact .inr ⟨kept, e, by simp [nested, nothing], isEdit⟩

mutual

/-- A document that is written and read again is still the same edit. -/
theorem Edited.arranged (gone : List String → Bool) :
    ∀ before {after : Document}, Edited gone before after → Edited gone before (Toml.arranged after)
  | .null, _, edited | .bool _, _, edited | .text _, _, edited | .other, _, edited => by
    cases edited
    rfl
  | .object entries, _, edited => by
    obtain ⟨others, rfl, slots⟩ := edited
    exact ⟨_, rfl, EditedEntries.arranged gone entries slots⟩
  | .list items, _, edited => by
    obtain ⟨others, rfl, each⟩ := edited
    exact ⟨_, rfl, EditedItems.arranged items each⟩

theorem EditedEntries.arranged (gone : List String → Bool) :
    ∀ before {after : List (String × Document)}, EditedEntries gone before after →
      EditedEntries gone before (Toml.plainPart after ++ Toml.arrangedSections after)
  | [], _, _ => trivial
  | (_, d) :: rest, _, edited =>
    ⟨edited.1.arranged Edited.eq_null fun _ => Edited.arranged _ d,
      EditedEntries.arranged gone rest edited.2⟩

theorem EditedItems.arranged :
    ∀ before {after : List Document}, EditedItems before after →
      EditedItems before (Toml.arrangedItems after)
  | [], _, edited => by
    cases edited
    rfl
  | item :: rest, _, edited => by
    obtain ⟨first, others, rfl, here, there⟩ := edited
    exact ⟨_, _, rfl, Edited.arranged _ item here, EditedItems.arranged rest there⟩

end

/-! ## Keys taken away -/

mutual

/-- A document without the keys at some paths. -/
def cut (gone : List String → Bool) : Document → Document
  | .object entries => .object (cutEntries gone entries)
  | d => d

def cutEntries (gone : List String → Bool) : List (String × Document) → List (String × Document)
  | [] => []
  | (key, d) :: rest =>
    if gone [key] then cutEntries gone rest
    else (key, cut (fun path => gone (key :: path)) d) :: cutEntries gone rest

end

theorem cutEntries_eq (gone : List String → Bool) (entries : List (String × Document)) :
    cutEntries gone entries = (entries.filter fun entry => !gone [entry.1]).map
      fun entry => (entry.1, cut (fun path => gone (entry.1 :: path)) entry.2) := by
  induction entries with
  | nil => rfl
  | cons entry entries ih =>
    rw [cutEntries, List.filter_cons, ih]
    cases gone [entry.1] <;> rfl

theorem filter_key {α : Type} {entries : List (String × α)}
    (distinct : (entries.map Prod.fst).Nodup) {entry : String × α} (inside : entry ∈ entries) :
    entries.filter (·.1 == entry.1) = [entry] := by
  induction entries with
  | nil => cases inside
  | cons first others ih =>
    obtain ⟨new, distinct⟩ := List.nodup_cons.1 distinct
    rcases List.mem_cons.1 inside with rfl | inside
    · rw [List.filter_cons, if_pos (beq_self_eq_true _), List.filter_eq_nil_iff.2]
      intro other among same
      exact Toml.ne_of_mem new among (beq_iff_eq.1 same)
    · have different : first.1 ≠ entry.1 := (Toml.ne_of_mem new inside).symm
      rw [List.filter_cons, if_neg (by simpa using different), ih distinct inside]

/-- Taking keys away is an edit. -/
theorem editedEntries_cut {entries : List (String × Document)}
    (distinct : (entries.map Prod.fst).Nodup)
    (each : ∀ entry ∈ entries, ∀ gone, Edited gone entry.2 (cut gone entry.2)) :
    EditedEntries gone entries (cutEntries gone entries) := by
  refine editedEntries_iff.2 fun entry inside => ?_
  rw [Slot, cutEntries_eq, List.filter_map]
  have found : (entries.filter fun entry => !gone [entry.1]).filter
      ((·.1 == entry.1) ∘
        fun entry => (entry.1, cut (fun path => gone (entry.1 :: path)) entry.2)) =
      [entry].filter fun entry => !gone [entry.1] := by
    rw [← filter_key distinct inside, List.filter_comm]
    rfl
  rw [found]
  cases missing : gone [entry.1] with
  | true => exact .inl ⟨by simp [missing], .inl rfl⟩
  | false => exact .inr ⟨rfl, _, by simp [missing], each entry inside _⟩

mutual

theorem cut_nothing : ∀ d : Document, cut (fun _ => false) d = d
  | .null | .bool _ | .text _ | .other | .list _ => rfl
  | .object entries => congrArg Document.object (cutEntries_nothing entries)

theorem cutEntries_nothing :
    ∀ entries : List (String × Document), cutEntries (fun _ => false) entries = entries
  | [] => rfl
  | (key, d) :: rest =>
    congrArg₂ (fun d rest => (key, d) :: rest) (cut_nothing d) (cutEntries_nothing rest)

end

theorem editedItems_self {items : List Document}
    (each : ∀ item ∈ items, Edited (fun _ => false) item item) : EditedItems items items := by
  induction items with
  | nil => rfl
  | cons item items ih =>
    obtain ⟨first, others⟩ := List.forall_mem_cons.1 each
    exact ⟨item, items, rfl, first, ih others⟩

theorem edited_cut {depth : Nat} {d : Document} (printable : Toml.Printable depth d) :
    ∀ gone, Edited gone d (cut gone d) := by
  induction printable with
  | null => exact fun _ => rfl
  | line _ onLine =>
    cases onLine with
    | bool b => exact fun _ => rfl
    | text s => exact fun _ => rfl
    | texts items =>
      refine fun gone => ⟨_, rfl, editedItems_self fun item inside => ?_⟩
      obtain ⟨s, -, rfl⟩ := List.mem_map.1 inside
      rfl
  | table distinct _ _ ih => exact fun gone => ⟨_, rfl, editedEntries_cut distinct ih⟩
  | tables _ _ ih =>
    refine fun gone => ⟨_, rfl, editedItems_self fun item inside => ?_⟩
    obtain ⟨entries, among, rfl⟩ := List.mem_map.1 inside
    have edited := ih entries among fun _ => false
    rwa [cut_nothing] at edited

/-- What is left of a printable document is printable. -/
theorem printable_cut {depth : Nat} {d : Document} (printable : Toml.Printable depth d) :
    ∀ gone, Toml.Printable depth (cut gone d) := by
  induction printable with
  | null depth => exact fun _ => .null depth
  | line depth onLine =>
    intro gone
    cases onLine with
    | bool b => exact .line depth (.bool b)
    | text s => exact .line depth (.text s)
    | texts items => exact .line depth (.texts items)
  | @table depth entries distinct bare _ ih =>
    intro gone
    have kept : (entries.filter fun entry => !gone [entry.1]).Sublist entries := List.filter_sublist
    rw [cut, cutEntries_eq]
    refine .table ?_ ?_ ?_
    · rw [List.map_map]
      exact distinct.sublist (kept.map Prod.fst)
    · intro entry inside
      obtain ⟨other, among, rfl⟩ := List.mem_map.1 inside
      exact bare other (kept.subset among)
    · intro entry inside
      obtain ⟨other, among, rfl⟩ := List.mem_map.1 inside
      exact ih other (kept.subset among) _
  | tables present each _ => exact fun _ => .tables present each

/-! ## Both formats -/

theorem writtenItems_iff {items : List Document} :
    WrittenItems items ↔ ∀ item ∈ items, item.Written := by
  induction items with
  | nil => simp [WrittenItems]
  | cons item items ih => rw [WrittenItems, ih, List.forall_mem_cons]

theorem writtenEntries_iff {entries : List (String × Document)} :
    WrittenEntries entries ↔ ∀ entry ∈ entries, entry.2.Written := by
  induction entries with
  | nil => simp [WrittenEntries]
  | cons entry entries ih => rw [WrittenEntries, ih, List.forall_mem_cons]

theorem written_of_printable {depth : Nat} {d : Document} (printable : Toml.Printable depth d) :
    d.Written := by
  induction printable with
  | null => exact trivial
  | line _ onLine =>
    cases onLine with
    | bool b => exact trivial
    | text s => exact trivial
    | texts items =>
      refine writtenItems_iff.2 fun item inside => ?_
      obtain ⟨s, -, rfl⟩ := List.mem_map.1 inside
      exact trivial
  | table _ _ _ ih => exact writtenEntries_iff.2 ih
  | tables _ _ ih =>
    refine writtenItems_iff.2 fun item inside => ?_
    obtain ⟨entries, among, rfl⟩ := List.mem_map.1 inside
    exact ih entries among

end Document

namespace SettingsFormat

/-- The document that a text denotes. -/
def document? : SettingsFormat → String → Option Document
  | json => Json.parse?
  | toml => Toml.parse?

/-- The text of a document. -/
def print : SettingsFormat → Document → String
  | json => Json.render 0
  | toml => Toml.render

/-- What a format writes and reads back is an edit of the document. -/
theorem document?_print (format : SettingsFormat) {gone : List String → Bool} {before : Document}
    {entries : List (String × Document)} {depth : Nat} (shallow : depth ≤ Toml.depthLimit)
    (printable : Toml.Printable (depth + 1) (.object entries))
    (edited : before.Edited gone (.object entries)) :
    ∃ d, format.document? (format.print (.object entries)) = some d ∧ before.Edited gone d := by
  cases format with
  | json =>
    exact ⟨_, Json.parse?_render (Document.written_of_printable printable), edited⟩
  | toml => exact ⟨_, Toml.parse?_render shallow printable, edited.arranged gone before⟩

end SettingsFormat

end ScriptHost
