import ScriptHost.Proofs.HostConversions
import ScriptHost.Proofs.StoreRuns
import ScriptHost.Proofs.TypedValues

/-!
# Keys of maps that come from scripts

The host takes a table for a map with texts as keys, one for each entry of the table.  Different
keys of a table may have the same text, a number and its digits for instance.  Then the map has the
text twice: who looks it up finds the entry that the host met first, and who reads the map into an
ordered one keeps the entry that it met last.  All other keys are found alike, in whatever order the
host met the entries.
-/

namespace ScriptHost

namespace Datum

variable {α β : Type} {key : String}

/-- Of entries with the same key the last one is kept. -/
theorem lookup_ofSortedEntries (rows : List (String × α)) (key : String) :
    (ofSortedEntries rows).lookup key = rows.reverse.lookup key := by
  have among (rows entries : List (String × α)) :
      (rows.foldl (fun entries row => insertEntry row.1 row.2 entries) entries).lookup key =
        (rows.reverse.lookup key).or (entries.lookup key) := by
    induction rows generalizing entries with
    | nil => rfl
    | cons row rest ih =>
      rw [List.foldl_cons, ih, lookup_insertEntry, List.reverse_cons, List.lookup_append,
        lookup_entry]
      cases rest.reverse.lookup key with
      | some found => rfl
      | none =>
        by_cases here : key = row.1
        · rw [if_pos here, if_pos here]
          rfl
        · rw [if_neg here, if_neg here]
          rfl
  rw [show ofSortedEntries rows = _ from rfl]
  exact (among rows []).trans (Option.or_none ..)

theorem insertEntry_map (f : α → β) (item : α) (entries : List (String × α)) :
    insertEntry key (f item) (entries.map fun entry => (entry.1, f entry.2)) =
      (insertEntry key item entries).map fun entry => (entry.1, f entry.2) := by
  induction entries with
  | nil => rfl
  | cons first rest ih =>
    rw [List.map_cons, insertEntry, insertEntry]
    split
    · rfl
    · split
      · rfl
      · rw [List.map_cons, ih]

theorem ofSortedEntries_map (f : α → β) (rows : List (String × α)) :
    ofSortedEntries (rows.map fun row => (row.1, f row.2)) =
      (ofSortedEntries rows).map fun entry => (entry.1, f entry.2) := by
  have among (rows entries : List (String × α)) :
      (rows.map fun row => (row.1, f row.2)).foldl
          (fun entries row => insertEntry row.1 row.2 entries)
          (entries.map fun entry => (entry.1, f entry.2)) =
        (rows.foldl (fun entries row => insertEntry row.1 row.2 entries) entries).map
          fun entry => (entry.1, f entry.2) := by
    induction rows generalizing entries with
    | nil => rfl
    | cons row rest ih =>
      rw [List.map_cons, List.foldl_cons, List.foldl_cons, ← ih]
      exact congrArg (fun entries => List.foldl _ entries _) (insertEntry_map f row.2 entries)
  exact among rows []

end Datum

namespace Machine

variable {s t u : Machine}

/-- The text that the host has for a key of a table. -/
def KeyText (s : Machine) (k : Value) (text : String) : Prop :=
  ∃ h, s.Unfolds k h ∧ s.objects.text h = some text

theorem KeyText.unique {k : Value} {a b : String} (first : s.KeyText k a) (second : s.KeyText k b) :
    a = b := by
  obtain ⟨h, unfolds, shown⟩ := first
  obtain ⟨h', also, shown'⟩ := second
  rw [unfolds.unique also] at shown
  exact Option.some.inj (shown.symm.trans shown')

theorem unfolds_text (s : Machine) (text : String) : s.Unfolds (.text text) (.str text) := by
  have unfolds := Unfolds.str (s := s) text.toByteArray
  rwa [Utf8.decode_toByteArray] at unfolds

theorem keyText_text (s : Machine) (text : String) : s.KeyText (.text text) text :=
  ⟨.str text, s.unfolds_text text, rfl⟩

/-- What the host makes of an entry of a table that it takes for a map. -/
inductive Becomes (s : Machine) : Value × Value → HostValue × HostValue → Prop where
  | named {k v : Value} {text : String} {h : HostValue} (key : s.KeyText k text)
      (value : s.Unfolds v h) : Becomes s (k, v) (.str text, h)

/-- The value of the first entry whose key has a given text. -/
inductive FirstUnder (s : Machine) (key : String) : List (Value × Value) → HostValue → Prop where
  | here {entry : Value × Value} {rest : List (Value × Value)} {h : HostValue}
      (named : s.KeyText entry.1 key) (value : s.Unfolds entry.2 h) :
      FirstUnder s key (entry :: rest) h
  | later {entry : Value × Value} {rest : List (Value × Value)} {h : HostValue}
      (other : ¬ s.KeyText entry.1 key) (first : FirstUnder s key rest h) :
      FirstUnder s key (entry :: rest) h

/-- At most one key of a table has a given text. -/
def AloneUnder (s : Machine) (id : TableId) (key : String) : Prop :=
  ∀ a ∈ s.pairsOf id, ∀ b ∈ s.pairsOf id, s.KeyText a.1 key → s.KeyText b.1 key → a = b

/-- The value of an entry whose key has a given text. -/
def HasUnder (s : Machine) (id : TableId) (key : String) (h : HostValue) : Prop :=
  ∃ entry ∈ s.pairsOf id, s.KeyText entry.1 key ∧ s.Unfolds entry.2 h

theorem FirstUnder.exists_mem {key : String} {entries : List (Value × Value)} {h : HostValue}
    (first : s.FirstUnder key entries h) :
    ∃ entry ∈ entries, s.KeyText entry.1 key ∧ s.Unfolds entry.2 h := by
  induction first with
  | here named value => exact ⟨_, List.mem_cons_self, named, value⟩
  | later _ _ ih =>
    obtain ⟨entry, among, found⟩ := ih
    exact ⟨entry, List.mem_cons_of_mem _ among, found⟩

theorem firstUnder_of_only {key : String} {entries : List (Value × Value)} {entry : Value × Value}
    {h : HostValue} (among : entry ∈ entries) (named : s.KeyText entry.1 key)
    (value : s.Unfolds entry.2 h)
    (only : ∀ other ∈ entries, s.KeyText other.1 key → other = entry) :
    s.FirstUnder key entries h := by
  induction entries with
  | nil => cases among
  | cons first rest ih =>
    by_cases also : s.KeyText first.1 key
    · obtain rfl := only first List.mem_cons_self also
      exact .here named value
    · rcases List.mem_cons.1 among with rfl | later
      · exact absurd named also
      · exact .later also
          (ih later fun other inside => only other (List.mem_cons_of_mem _ inside))

/-- Under a text that one key has, all entries are the first. -/
theorem firstUnder_iff_hasUnder {id : TableId} {key : String} {order : List (Value × Value)}
    (perm : order.Perm (s.pairsOf id)) (alone : s.AloneUnder id key) (h : HostValue) :
    s.FirstUnder key order h ↔ s.HasUnder id key h := by
  constructor
  · intro first
    obtain ⟨entry, among, found⟩ := first.exists_mem
    exact ⟨entry, perm.mem_iff.1 among, found⟩
  · rintro ⟨entry, among, named, value⟩
    refine firstUnder_of_only (perm.mem_iff.2 among) named value fun other inside also => ?_
    exact alone other (perm.mem_iff.1 inside) entry among also named

/-! ## Results on all later machines -/

section

open MachineM

variable {α β : Type}

/-- A computation has a result, whatever failures were added to the machine. -/
def Gives (s : Machine) (m : CrossingM α) (a : α) : Prop :=
  ∀ t, s.Later t → ∃ u, m.runOn t = (.ok a, u) ∧ s.Later u

theorem Gives.bind {m : CrossingM α} {f : α → CrossingM β} {a : α} {b : β} (first : s.Gives m a)
    (rest : s.Gives (f a) b) : s.Gives (m >>= f) b := by
  intro t later
  obtain ⟨u, run, later⟩ := first t later
  rw [runOn_bind_ok run]
  exact rest u later

theorem gives_pure (a : α) : s.Gives (pure a) a := fun t later => ⟨t, rfl, later⟩

theorem Gives.later {m : CrossingM α} {a b : α} (gives : s.Gives m a) (later : s.Later t)
    (run : m.runOn t = (.ok b, u)) : s.Later u := by
  obtain ⟨v, again, after⟩ := gives t later
  rw [run] at again
  cases again
  exact after

end

end Machine

namespace Crossing

open Machine MachineM

variable {s t u : Machine} {α β : Type}

theorem gives_mapM {f : α → CrossingM β} {items : List α} {results : List β}
    (each : List.Forall₂ (fun item result => s.Gives (f item) result) items results) :
    s.Gives (items.mapM f) results := by
  induction each with
  | nil => exact gives_pure []
  | cons first _ ih =>
    rw [List.mapM_cons]
    exact first.bind (ih.bind (gives_pure _))

/-- A computation whose result on one later machine is its result on all of them. -/
def Steady (s : Machine) (m : CrossingM α) : Prop :=
  ∀ a t u, s.Later t → m.runOn t = (.ok a, u) → s.Gives m a

theorem steady_pure (a : α) : Steady s (pure a) := by
  intro b t u later run
  cases run
  exact gives_pure a

theorem Steady.mapM {f : α → CrossingM β} {items : List α} {results : List β}
    (each : ∀ item, Steady s (f item)) (later : s.Later t)
    (run : (items.mapM f).runOn t = (.ok results, u)) :
    List.Forall₂ (fun item result => s.Gives (f item) result) items results := by
  induction items generalizing t u results with
  | nil =>
    cases run
    exact .nil
  | cons item rest ih =>
    rw [List.mapM_cons] at run
    obtain ⟨b, v, one, run⟩ := runOn_bind_eq_ok.1 run
    obtain ⟨bs, w, others, run⟩ := runOn_bind_eq_ok.1 run
    cases run
    have gives := each item b t v later one
    exact .cons gives (ih (gives.later later one) others)

theorem gives_textKey {h : HostValue} {text : String} (shown : s.objects.text h = some text) :
    s.Gives (textKey h) text := by
  intro t later
  refine ⟨t, ?_, later⟩
  rw [runOn_textKey, later.objects, shown]

theorem gives_namedEntry {convert : Value → CrossingM HostValue} {entry : Value × Value}
    {k h : HostValue} {text : String} (key : s.Gives (convert entry.1) k)
    (shown : s.objects.text k = some text) (value : s.Gives (convert entry.2) h) :
    s.Gives (namedEntry convert entry) (.str text, h) :=
  key.bind ((gives_textKey shown).bind (value.bind (gives_pure _)))

theorem namedEntry_steady {convert : Value → CrossingM HostValue}
    (converts : ∀ v, Steady s (convert v)) (entry : Value × Value) :
    Steady s (namedEntry convert entry) := by
  intro pair t u later run
  rw [namedEntry] at run
  obtain ⟨k, v, key, rest⟩ := runOn_bind_eq_ok.1 run
  obtain ⟨text, w, shown, rest⟩ := runOn_bind_eq_ok.1 rest
  obtain ⟨h, x, value, done⟩ := runOn_bind_eq_ok.1 rest
  have givesKey := converts entry.1 k t v later key
  have between := givesKey.later later key
  obtain ⟨same, hasText⟩ := runOn_textKey_ok shown
  rw [same] at value
  rw [between.objects] at hasText
  have givesValue := converts entry.2 h v x between value
  cases done
  exact gives_namedEntry givesKey hasText givesValue

theorem contents_steady {convert : Value → CrossingM HostValue}
    (converts : ∀ v, Steady s (convert v)) (entries : List (Value × Value)) :
    Steady s (contents convert entries) := by
  intro h t u later run
  rw [contents] at run ⊢
  cases sorted : sequence? entries with
  | some items =>
    rw [sorted] at run
    obtain ⟨results, v, each, run⟩ := runOn_bind_eq_ok.1 run
    cases run
    exact (gives_mapM (Steady.mapM converts later each)).bind (gives_pure _)
  | none =>
    rw [sorted] at run
    obtain ⟨results, v, each, run⟩ := runOn_bind_eq_ok.1 run
    cases run
    exact (gives_mapM (Steady.mapM (namedEntry_steady converts) later each)).bind (gives_pure _)

/-- A table that was converted is converted on every later machine. -/
theorem table_steady {depth : Nat} {passed : List TableId} {id : TableId}
    (converts : ∀ v, Steady s (hostValue depth (id :: passed) v)) :
    Steady s (hostValue (depth + 1) passed (.table id)) := by
  intro h t u later run t' later'
  rw [hostValue_table_succ, runOn_bind_ok (runOn_get _), later.unwrap?] at run
  rw [hostValue_table_succ, runOn_bind_ok (runOn_get _), later'.unwrap?]
  cases stands : s.unwrap? id with
  | some found =>
    rw [stands] at run
    cases run
    exact ⟨t', rfl, later'⟩
  | none =>
    rw [stands] at run
    by_cases opened : id ∈ passed
    · simp only [if_pos opened] at run
      cases run
    · simp only [if_neg opened] at run ⊢
      obtain ⟨found, v, entries, rest⟩ := runOn_bind_eq_ok.1 run
      have quiet := not_alarming_of_entriesOf later entries
      obtain ⟨_, _, first, between, likes⟩ | ⟨text, _, _, alarming⟩ := runOn_entriesOf id later
      swap
      · exact absurd alarming (quiet text)
      rw [entries] at first
      cases first
      rw [contents_congr hostValue_alike likes] at rest
      obtain ⟨again, w, second, between', likes'⟩ | ⟨text, _, _, alarming⟩ :=
        runOn_entriesOf id later'
      swap
      · exact absurd alarming (quiet text)
      rw [runOn_bind_ok second, contents_congr hostValue_alike likes']
      exact contents_steady converts _ h v u between rest w between'

theorem hostValue_steady (s : Machine) (depth : Nat) (passed : List TableId) (v : Value) :
    Steady s (hostValue depth passed v) := by
  induction depth generalizing passed v with
  | zero =>
    obtain ⟨id, rfl⟩ | done := table_or_done v
    · intro h t u later run t' later'
      rw [hostValue_table_zero, runOn_bind_ok (runOn_get _), later.unwrap?] at run
      rw [hostValue_table_zero, runOn_bind_ok (runOn_get _), later'.unwrap?]
      cases stands : s.unwrap? id with
      | some found =>
        rw [stands] at run
        cases run
        exact ⟨t', rfl, later'⟩
      | none =>
        rw [stands] at run
        dsimp only at run
        split at run <;> cases run
    · obtain ⟨h, same⟩ := done 0 passed
      exact same ▸ steady_pure h
  | succ depth ih =>
    obtain ⟨id, rfl⟩ | done := table_or_done v
    · exact table_steady fun v => ih (id :: passed) v
    · obtain ⟨h, same⟩ := done (depth + 1) passed
      exact same ▸ steady_pure h

/-! ## Maps in any order -/

/-- What the host makes of a plain table whose entries it meets in a given order. -/
def toHostIn (id : TableId) (order : List (Value × Value)) : CrossingM HostValue := do
  contents (hostValue (depthLimit - 1) [id]) (← order.mapM receiveEntry)

variable {id : TableId} {order : List (Value × Value)} {found pairs : List (HostValue × HostValue)}

theorem runOn_toHost_plain (plain : s.Plain id) :
    (toHost (.table id)).runOn s = (toHostIn id (s.pairsOf id)).runOn s := by
  rw [toHost, show depthLimit = 127 + 1 from rfl, hostValue_table_succ, runOn_bind_ok (runOn_get s),
    plain]
  rfl

/-- An entry whose key has a text and whose value is converted. -/
theorem becomes_of_gives {depth : Nat} {passed : List TableId} {entry : Value × Value}
    {pair : HostValue × HostValue}
    (gives : s.Gives (namedEntry (hostValue depth passed) entry) pair) : s.Becomes entry pair := by
  obtain ⟨u, run, -⟩ := gives s (.refl s)
  rw [namedEntry] at run
  obtain ⟨k, v, key, rest⟩ := runOn_bind_eq_ok.1 run
  obtain ⟨text, w, shown, rest⟩ := runOn_bind_eq_ok.1 rest
  obtain ⟨h, x, value, done⟩ := runOn_bind_eq_ok.1 rest
  obtain ⟨between, unfoldsKey, -⟩ := hostValue_ok (.refl s) key
  obtain ⟨same, hasText⟩ := runOn_textKey_ok shown
  rw [same] at value
  rw [between.objects] at hasText
  obtain ⟨-, unfolds, -⟩ := hostValue_ok between value
  cases done
  exact .named ⟨k, unfoldsKey, hasText⟩ unfolds

/-- Entries that the host can name become a map. -/
theorem gives_contents {convert : Value → CrossingM HostValue}
    (mixed : ∃ entry ∈ order, ∀ i, entry.1 ≠ .int i)
    (each : List.Forall₂ (fun entry pair => s.Gives (namedEntry convert entry) pair) order found) :
    s.Gives (contents convert order) (.map found) := by
  rw [contents, sequence?_of_other mixed]
  exact (gives_mapM each).bind (gives_pure _)

/-- A map was made of entries that the host can name, some of them not under an integer. -/
theorem named_of_contents {depth : Nat} {passed : List TableId} (later : s.Later t)
    (run : (contents (hostValue depth passed) order).runOn t = (.ok (.map found), u)) :
    (∃ entry ∈ order, ∀ i, entry.1 ≠ .int i) ∧
      List.Forall₂ (fun entry pair => s.Gives (namedEntry (hostValue depth passed) entry) pair)
        order found := by
  rw [contents] at run
  rcases integers_or_other order with ⟨indexed, rfl⟩ | mixed
  · rw [sequence?_of_integers] at run
    obtain ⟨_, _, _, done⟩ := runOn_bind_eq_ok.1 run
    cases done
  · rw [sequence?_of_other mixed] at run
    obtain ⟨_, _, each, done⟩ := runOn_bind_eq_ok.1 run
    cases done
    exact ⟨mixed, Steady.mapM (namedEntry_steady (hostValue_steady s depth passed)) later each⟩

/-- Where the entries of a table became a map, they do so in every order. -/
theorem gives_inOrder (plain : s.Plain id)
    (run : (toHost (.table id)).runOn s = (.ok (.map pairs), t)) :
    List.Forall₂ s.Becomes (s.pairsOf id) pairs ∧
    ∀ order, order.Perm (s.pairsOf id) → ∃ found, s.Gives (toHostIn id order) (.map found) ∧
      List.Forall₂ s.Becomes order found ∧ found.Perm pairs := by
  rw [runOn_toHost_plain plain, toHostIn] at run
  obtain ⟨received, v, entries, rest⟩ := runOn_bind_eq_ok.1 run
  have taken : (entriesOf id).runOn s = (.ok received, v) := by
    rw [entriesOf, runOn_bind_ok (runOn_table id s)]
    exact entries
  have quiet := not_alarming_of_entriesOf (.refl s) taken
  obtain ⟨_, _, first, between, likes⟩ | ⟨text, _, _, alarming⟩ := runOn_entriesOf id (.refl s)
  swap
  · exact absurd alarming (quiet text)
  rw [taken] at first
  cases first
  rw [contents_congr hostValue_alike likes] at rest
  obtain ⟨mixed, named⟩ := named_of_contents between rest
  refine ⟨named.imp fun _ _ => becomes_of_gives, fun order perm => ?_⟩
  obtain ⟨found, each, same⟩ := List.perm_comp_forall₂ perm named
  have alsoMixed : ∃ entry ∈ order, ∀ i, entry.1 ≠ .int i := by
    obtain ⟨entry, among, other⟩ := mixed
    exact ⟨entry, perm.mem_iff.2 among, other⟩
  refine ⟨found, fun t' later => ?_, each.imp fun _ _ => becomes_of_gives, same⟩
  obtain ⟨others, w, again, later, likes⟩ | ⟨entry, among, text, w, raises, -⟩ :=
    runOn_receiveEntries order later
  · rw [toHostIn, runOn_bind_ok again, contents_congr hostValue_alike likes]
    exact gives_contents alsoMixed each w later
  · have held := perm.mem_iff.1 among
    rcases raises with raises | raises
    · exact absurd ⟨entry.1, ⟨entry, held, .inl rfl⟩, raises⟩ (quiet text)
    · exact absurd ⟨entry.2, ⟨entry, held, .inr rfl⟩, raises⟩ (quiet text)

end Crossing

/-! ## Readers of maps -/

namespace Machine

variable {s : Machine} {order : List (Value × Value)} {found : List (HostValue × HostValue)}

/-- Entries and the texts and values that the host has for them. -/
theorem rows_of_becomes (each : List.Forall₂ s.Becomes order found) :
    ∃ rows : List (String × HostValue), found = rows.map (fun row => (.str row.1, row.2)) ∧
      List.Forall₂ (fun entry row => s.KeyText entry.1 row.1 ∧ s.Unfolds entry.2 row.2)
        order rows := by
  induction each with
  | nil => exact ⟨[], rfl, .nil⟩
  | cons first _ ih =>
    obtain ⟨rows, rfl, named⟩ := ih
    cases first with
    | @named k v text h key value => exact ⟨(text, h) :: rows, rfl, .cons ⟨key, value⟩ named⟩

variable {rows : List (String × HostValue)}

/-- The first row under a text is that of the first entry whose key has the text. -/
theorem lookup_eq_some_iff
    (named : List.Forall₂ (fun entry row => s.KeyText entry.1 row.1 ∧ s.Unfolds entry.2 row.2)
      order rows) (key : String) (h : HostValue) :
    rows.lookup key = some h ↔ s.FirstUnder key order h := by
  induction named with
  | nil => exact iff_of_false nofun nofun
  | @cons entry row order rows first _ ih =>
    rw [Datum.lookup_entry]
    by_cases here : key = row.1
    · rw [if_pos here]
      constructor
      · intro same
        cases same
        exact .here (here ▸ first.1) first.2
      · intro under
        cases under with
        | here _ value => rw [first.2.unique value]
        | later other => exact absurd (here ▸ first.1) other
    · rw [if_neg here, ih]
      constructor
      · exact .later fun also => here (also.unique first.1)
      · intro under
        cases under with
        | here also => exact absurd (also.unique first.1) here
        | later _ under => exact under

theorem mem_texts_iff
    (named : List.Forall₂ (fun entry row => s.KeyText entry.1 row.1 ∧ s.Unfolds entry.2 row.2)
      order rows) (key : String) :
    key ∈ rows.map (·.1) ↔ ∃ entry ∈ order, s.KeyText entry.1 key := by
  induction named with
  | nil => exact iff_of_false nofun nofun
  | @cons entry row order rows first _ ih =>
    have here : key = row.1 ↔ s.KeyText entry.1 key :=
      ⟨fun same => same ▸ first.1, fun also => also.unique first.1⟩
    rw [List.map_cons, List.mem_cons, List.exists_mem_cons_iff, ih, here]

/-- Rows have different texts if the keys of their entries do. -/
theorem rows_nodup_iff
    (named : List.Forall₂ (fun entry row => s.KeyText entry.1 row.1 ∧ s.Unfolds entry.2 row.2)
      order rows) :
    (rows.map (·.1)).Nodup ↔
      order.Pairwise fun a b => ∀ text, s.KeyText a.1 text → ¬ s.KeyText b.1 text := by
  induction named with
  | nil => exact iff_of_true .nil .nil
  | @cons entry row order rows first rest ih =>
    rw [List.map_cons, List.nodup_cons, List.pairwise_cons, ih, mem_texts_iff rest]
    refine and_congr_left fun _ => ?_
    constructor
    · intro new other among text here there
      rw [here.unique first.1] at there
      exact new ⟨other, among, there⟩
    · rintro apart ⟨other, among, there⟩
      exact apart other among row.1 first.1 there

end Machine

namespace HostValue

/-- A lookup in a map with texts as keys finds the first row under a text. -/
theorem get?_map (rows : List (String × HostValue)) (key : String) :
    (HostValue.map (rows.map fun row => (.str row.1, row.2))).get? key = rows.lookup key := by
  rw [get?]
  induction rows with
  | nil => rfl
  | cons row rest ih =>
    have asked : (HostValue.str row.1).text? = some key ↔ key = row.1 :=
      ⟨fun same => (Option.some.inj same).symm, fun same => congrArg some same.symm⟩
    rw [List.map_cons, List.findSome?_cons, Datum.lookup_entry, ih]
    simp only [asked]
    by_cases here : key = row.1
    · rw [if_pos here, if_pos here]
    · rw [if_neg here, if_neg here]

end HostValue

namespace Storage

open HostM

/-- A map with texts as keys is stored as the ordered map of its rows. -/
theorem yields_store_texts (rows : List (String × HostValue)) :
    Yields ((Storage.map .any).store (.map (rows.map fun row => (.str row.1, row.2))))
      (.map ((Datum.ofSortedEntries rows).map fun entry => (entry.1, .any entry.2))) := by
  have each : List.Forall₂ (fun pair row => Yields (Storage.any.storeEntry pair) row)
      (rows.map fun row => (HostValue.str row.1, row.2))
      (rows.map fun row => (row.1, Datum.any row.2)) := by
    rw [List.forall₂_map_left_iff, List.forall₂_map_right_iff, List.forall₂_same]
    exact fun row _ => (yields_textOf row.1).bind (yields_pure _)
  rw [store_map, ← Datum.ofSortedEntries_map]
  exact (yields_mapM each).bind (yields_pure _)

end Storage

namespace Crossing

open Machine MachineM

variable {s t : Machine} {id : TableId} {pairs : List (HostValue × HostValue)}

/-- Different strings of text have different texts. -/
theorem texts_apart (strings : ∀ entry ∈ s.pairsOf id, ∃ text, entry.1 = .text text) :
    (s.pairsOf id).Pairwise fun a b => ∀ text, s.KeyText a.1 text → ¬ s.KeyText b.1 text := by
  have keys : ((s.pairsOf id).map (·.1)).Nodup :=
    (s.tables[id.index]?.getD default).live_keys_nodup
  rw [List.Nodup, List.pairwise_map] at keys
  refine keys.imp_of_mem fun {a b} amongA amongB apart text here there => apart ?_
  obtain ⟨textA, isA⟩ := strings a amongA
  obtain ⟨textB, isB⟩ := strings b amongB
  rw [isA] at here ⊢
  rw [isB] at there ⊢
  rw [(s.keyText_text textA).unique here, (s.keyText_text textB).unique there]

/--
The host has taken a table for a map.  The keys of the map are the texts of the keys of the table,
one for each entry.  They are all different exactly if no two keys have the same text, as it is with
strings of text.  In whatever order the host meets the entries, a lookup finds the first entry under
a text and the ordered map has the last one, which are the same where one key alone has the text.
-/
theorem toHost_map_keys (plain : s.Plain id)
    (run : (toHost (.table id)).runOn s = (.ok (.map pairs), t)) :
    List.Forall₂ s.Becomes (s.pairsOf id) pairs ∧
    ((pairs.map (·.1)).Nodup ↔
      (s.pairsOf id).Pairwise fun a b => ∀ text, s.KeyText a.1 text → ¬ s.KeyText b.1 text) ∧
    ((∀ entry ∈ s.pairsOf id, ∃ text, entry.1 = .text text) → (pairs.map (·.1)).Nodup) ∧
    (toHost (.table id)).runOn s = (toHostIn id (s.pairsOf id)).runOn s ∧
    ∀ order, order.Perm (s.pairsOf id) → ∃ found u, ∃ entries : List (String × HostValue),
      (toHostIn id order).runOn s = (.ok (.map found), u) ∧ found.Perm pairs ∧
      ((Storage.map .any).store (.map found)).runOn u.objects =
        (.ok (.map (entries.map fun entry => (entry.1, .any entry.2))), u.objects) ∧
      ∀ key v,
        ((HostValue.map found).get? key = some v ↔ s.FirstUnder key order v) ∧
        (entries.lookup key = some v ↔ s.FirstUnder key order.reverse v) ∧
        (s.AloneUnder id key →
          ((HostValue.map found).get? key = some v ↔ s.HasUnder id key v) ∧
          (entries.lookup key = some v ↔ s.HasUnder id key v)) := by
  obtain ⟨each, inOrder⟩ := gives_inOrder plain run
  have distinct : (pairs.map (·.1)).Nodup ↔
      (s.pairsOf id).Pairwise fun a b => ∀ text, s.KeyText a.1 text → ¬ s.KeyText b.1 text := by
    obtain ⟨rows, rfl, named⟩ := rows_of_becomes each
    rw [← rows_nodup_iff named, List.map_map]
    have keys : rows.map ((·.1) ∘ fun row => (HostValue.str row.1, row.2)) =
        (rows.map (·.1)).map HostValue.str := by
      rw [List.map_map]
      rfl
    rw [keys, List.nodup_map_iff fun _ _ => HostValue.str.inj]
  refine ⟨each, distinct, fun strings => distinct.2 (texts_apart strings), runOn_toHost_plain plain,
    fun order perm => ?_⟩
  obtain ⟨found, gives, becomes, same⟩ := inOrder order perm
  obtain ⟨u, again, -⟩ := gives s (.refl s)
  obtain ⟨rows, rfl, named⟩ := rows_of_becomes becomes
  refine ⟨_, u, Datum.ofSortedEntries rows, again, same, Storage.yields_store_texts rows u.objects,
    fun key v => ?_⟩
  have first : (HostValue.map (rows.map fun row => (.str row.1, row.2))).get? key = some v ↔
      s.FirstUnder key order v := by
    rw [HostValue.get?_map, lookup_eq_some_iff named]
  have last : (Datum.ofSortedEntries rows).lookup key = some v ↔
      s.FirstUnder key order.reverse v := by
    rw [Datum.lookup_ofSortedEntries, lookup_eq_some_iff (List.forall₂_reverse_iff.2 named)]
  refine ⟨first, last, fun alone => ⟨?_, ?_⟩⟩
  · rw [first, firstUnder_iff_hasUnder perm alone]
  · rw [last, firstUnder_iff_hasUnder ((List.reverse_perm order).trans perm) alone]

/-- A table with a value under a number and another one under the digits of the number. -/
def digits : Machine where
  tables := #[((Table.bare 1 1 none).putItem 0 (.text "a")).putEntry (.text "1") (.text "b") rfl]

theorem pairsOf_digits :
    digits.pairsOf ⟨0⟩ = [(.int 1, .text "a"), (.text "1", .text "b")] := by
  have entries : (Entries.empty.insert (.text "1") (.text "b")).toList =
      [(.text "1", .text "b")] :=
    Entries.toList_insert_new (Entries.get?_empty _) _
  exact congrArg (fun entries => ((Value.int 1, Value.text "a") :: entries).filter fun pair =>
    !pair.2.isNil) entries

theorem hostValue_text (depth : Nat) (passed : List TableId) (text : String) :
    hostValue depth passed (.text text) = pure (.str text) := by
  change hostValue depth passed (.str text.toByteArray) = _
  cases depth <;> rw [hostValue, Utf8.decode_toByteArray]

theorem toHost_digits : ∃ t, (toHost (.table ⟨0⟩)).runOn digits =
    (.ok (.map [(.str "1", .str "a"), (.str "1", .str "b")]), t) := by
  have gives (text : String) :
      digits.Gives (hostValue 127 [⟨0⟩] (.text text)) (.str text) := by
    rw [hostValue_text]
    exact gives_pure _
  have number : digits.Gives (hostValue 127 [⟨0⟩] (.int 1)) (.int 1) := gives_pure _
  have mixed : ∃ entry ∈ digits.pairsOf ⟨0⟩, ∀ i, entry.1 ≠ .int i := by
    rw [pairsOf_digits]
    exact ⟨_, List.mem_cons_of_mem _ List.mem_cons_self, nofun⟩
  have named : digits.Gives (contents (hostValue 127 [⟨0⟩]) (digits.pairsOf ⟨0⟩))
      (.map [(.str "1", .str "a"), (.str "1", .str "b")]) := by
    apply gives_contents mixed
    rw [pairsOf_digits]
    exact .cons (gives_namedEntry number rfl (gives "a"))
      (.cons (gives_namedEntry (gives "1") rfl (gives "b")) .nil)
  have entries : ((digits.pairsOf ⟨0⟩).mapM receiveEntry).runOn digits =
      (.ok (digits.pairsOf ⟨0⟩), digits) := by
    rw [pairsOf_digits]
    rfl
  obtain ⟨t, run, -⟩ := named digits (.refl digits)
  exact ⟨t, (runOn_toHost_plain (s := digits) rfl).trans ((runOn_bind_ok entries _).trans run)⟩

/-- A key may come twice: a lookup and the ordered map then find different values under it. -/
theorem toHost_repeats_key : ∃ pairs t, (toHost (.table ⟨0⟩)).runOn digits = (.ok (.map pairs), t) ∧
    ¬ (pairs.map (·.1)).Nodup ∧ (HostValue.map pairs).get? "1" = some (.str "a") ∧
    ∃ entries, ((Storage.map .any).store (.map pairs)).runOn t.objects =
        (.ok (.map entries), t.objects) ∧
      entries.lookup "1" = some (.any (.str "b")) := by
  obtain ⟨t, run⟩ := toHost_digits
  refine ⟨_, t, run, fun distinct => ?_, rfl, _, rfl, rfl⟩
  exact (List.nodup_cons.1 distinct).1 List.mem_cons_self

/-- In the other order the lookup and the ordered map change places. -/
theorem toHost_map_keys_digits : ∃ found u, ∃ entries : List (String × HostValue),
    (toHostIn ⟨0⟩ (digits.pairsOf ⟨0⟩).reverse).runOn digits = (.ok (.map found), u) ∧
    ((Storage.map .any).store (.map found)).runOn u.objects =
      (.ok (.map (entries.map fun entry => (entry.1, .any entry.2))), u.objects) ∧
    (HostValue.map found).get? "1" = some (.str "b") ∧ entries.lookup "1" = some (.str "a") := by
  obtain ⟨t, run⟩ := toHost_digits
  obtain ⟨-, -, -, -, inOrder⟩ := toHost_map_keys (s := digits) rfl run
  obtain ⟨found, u, entries, again, -, stored, reads⟩ := inOrder _ (List.reverse_perm _)
  refine ⟨found, u, entries, again, stored, (reads "1" (.str "b")).1.2 ?_,
    (reads "1" (.str "a")).2.1.2 ?_⟩
  · rw [pairsOf_digits]
    exact .here (keyText_text digits "1") (digits.unfolds_text "b")
  · rw [List.reverse_reverse, pairsOf_digits]
    exact .here ⟨.int 1, .int 1, rfl⟩ (digits.unfolds_text "a")

end Crossing

end ScriptHost
