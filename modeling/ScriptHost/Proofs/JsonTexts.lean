import Mathlib.Tactic.SplitIfs
import ScriptHost.Settings.Json

/-!
# Printed documents read back

The reader finds in a printed document what the printer was given.  Every part of a document is read
off the front of a text whatever comes after it.  The reader counts its steps; it takes at most one
for each character that it passes.
-/

namespace ScriptHost

namespace Document

mutual

/-- Documents that are written as what they are: a value that no setting takes has no text. -/
def Written : Document → Prop
  | .other => False
  | .list items => WrittenItems items
  | .object entries => WrittenEntries entries
  | _ => True

def WrittenItems : List Document → Prop
  | [] => True
  | item :: rest => item.Written ∧ WrittenItems rest

def WrittenEntries : List (String × Document) → Prop
  | [] => True
  | (_, d) :: rest => d.Written ∧ WrittenEntries rest

end

end Document

namespace Json

variable {fuel depth : Nat} {rest : List Char}

/-! ## Strings -/

/-- Two hexadecimal digits make a control character. -/
theorem hex4?_control {n : Nat} (small : n < 0x20) (rest : List Char) :
    hex4? ('0' :: '0' :: hexDigit (n / 16) :: hexDigit (n % 16) :: rest) = some (n, rest) := by
  have digits : ∀ n < 0x20,
      Numeral.digits 16 ['0', '0', hexDigit (n / 16), hexDigit (n % 16)] 0 0 = (n, 4, []) := by
    decide
  simp [hex4?, digits n small]

theorem codePoint?_control {c : Char} (small : c.toNat < 0x20) (rest : List Char) :
    codePoint? ('0' :: '0' :: hexDigit (c.toNat / 16) :: hexDigit (c.toNat % 16) :: rest) =
      some (some c, rest) := by
  have notHigh : ¬ (0xd800 ≤ c.toNat ∧ c.toNat < 0xdc00) := by omega
  have notLow : ¬ (0xdc00 ≤ c.toNat ∧ c.toNat < 0xe000) := by omega
  rw [codePoint?, hex4?_control small]
  simp only [Option.bind_eq_bind, Option.bind_some, if_neg notHigh, if_neg notLow]
  exact congrArg (fun d => some (some d, rest)) (Char.ofNat_toNat c)

/-- An escaped character is read as the character. -/
theorem string?_escape (c : Char) {content : List (Option Char)} {text : List Char}
    (read : string? fuel text = some (content, rest)) :
    string? (fuel + 1) (escape c ++ text) = some (some c :: content, rest) := by
  have short (e : Char) (standsFor : shortEscape? e = some c) :
      string? (fuel + 1) ('\\' :: e :: text) = some (some c :: content, rest) := by
    have notPoint : e ≠ 'u' := by
      rintro rfl
      cases standsFor
    rw [string?, if_neg (by decide), if_pos rfl]
    · simp [standsFor, read]
    · exact notPoint
  unfold escape
  split_ifs with quote slash bell form new back tab small
  · exact quote ▸ short '"' (by rw [quote]; rfl)
  · exact short '\\' (by rw [slash]; rfl)
  · exact short 'b' (by rw [bell]; rfl)
  · exact short 'f' (by rw [form]; rfl)
  · exact short 'n' (by rw [new]; rfl)
  · exact short 'r' (by rw [back]; rfl)
  · exact short 't' (by rw [tab]; rfl)
  · simp only [List.cons_append, List.nil_append]
    rw [string?, if_neg (by decide), if_pos rfl]
    simp [codePoint?_control small, read]
  · rw [List.singleton_append, string?.eq_def]
    simp [quote, slash, small, read]

/-- A quoted text is read as the text. -/
theorem string?_quote {text : List Char} (enough : (text.flatMap escape).length < fuel) :
    string? fuel (text.flatMap escape ++ '"' :: rest) = some (text.map some, rest) := by
  induction text generalizing fuel with
  | nil =>
    cases fuel with
    | zero => cases enough
    | succ fuel => rfl
  | cons c text ih =>
    cases fuel with
    | zero => cases enough
    | succ fuel =>
      have some : 0 < (escape c).length := by
        unfold escape
        split_ifs <;> exact Nat.succ_pos _
      rw [List.flatMap_cons, List.length_append] at enough
      rw [List.flatMap_cons, List.append_assoc]
      exact string?_escape c (ih (by omega))

theorem text?_quote (s : String) (rest : List Char) :
    text? (s.toList.flatMap escape ++ '"' :: rest) = some (some s, rest) := by
  have enough : (s.toList.flatMap escape).length <
      (s.toList.flatMap escape ++ '"' :: rest).length + 1 := by
    rw [List.length_append]
    omega
  have whole : (s.toList.map some).mapM id = some s.toList := by
    induction s.toList with
    | nil => rfl
    | cons c text ih => simp [ih]
  rw [text?, string?_quote enough]
  simp [whole]

/-! ## Blanks -/

/-- A text of blanks. -/
def Blank (text : List Char) : Prop := ∀ c ∈ text, isBlank c

theorem skipBlanks_append {blanks : List Char} (blank : Blank blanks) (text : List Char) :
    skipBlanks (blanks ++ text) = skipBlanks text := by
  induction blanks with
  | nil => rfl
  | cons c blanks ih =>
    obtain ⟨first, others⟩ := List.forall_mem_cons.1 blank
    rw [List.cons_append, skipBlanks, List.dropWhile_cons, if_pos first]
    exact ih others

theorem skipBlanks_cons {c : Char} (dark : isBlank c = false) (text : List Char) :
    skipBlanks (c :: text) = c :: text := by
  rw [skipBlanks, List.dropWhile_cons, dark]
  rfl

/-- Blanks before a value do not count. -/
theorem value?_append {blanks : List Char} (blank : Blank blanks) (fuel : Nat) (text : List Char) :
    value? fuel (blanks ++ text) = value? fuel text := by
  cases fuel with
  | zero => rfl
  | succ fuel => rw [value?, value?, skipBlanks_append blank]

theorem toList_pushn (n : Nat) : ("".pushn ' ' n).toList = List.replicate n ' ' := by
  rw [String.pushn_eq_repeat_push]
  induction n with
  | zero => rfl
  | succ n ih => rw [Nat.repeat, String.toList_push, ih, List.replicate_succ']

theorem blank_line (depth : Nat) : Blank (line depth).toList := by
  intro c inside
  rw [line, String.toList_append, toList_pushn] at inside
  rcases List.mem_append.1 inside with new | spaces
  · rw [List.mem_singleton.1 new]
    rfl
  · rw [List.eq_of_mem_replicate spaces]
    rfl

theorem length_line_pos (depth : Nat) : 0 < (line depth).toList.length := by
  rw [line, String.toList_append, List.length_append]
  exact Nat.lt_of_lt_of_le Nat.zero_lt_one (Nat.le_add_right _ _)

theorem skipBlanks_skipBlanks (text : List Char) :
    skipBlanks (skipBlanks text) = skipBlanks text := by
  induction text with
  | nil => rfl
  | cons c text ih =>
    by_cases blank : isBlank c = true
    · rw [skipBlanks, skipBlanks, List.dropWhile_cons, if_pos blank]
      exact ih
    · have dark : isBlank c = false := by simpa using blank
      rw [skipBlanks_cons dark, skipBlanks_cons dark]

theorem value?_skipBlanks (fuel : Nat) (text : List Char) :
    value? fuel (skipBlanks text) = value? fuel text := by
  cases fuel with
  | zero => rfl
  | succ fuel => rw [value?, value?, skipBlanks_skipBlanks]

theorem items?_skipBlanks (fuel : Nat) (text : List Char) :
    items? fuel (skipBlanks text) = items? fuel text := by
  cases fuel with
  | zero => rfl
  | succ fuel => rw [items?, items?, value?_skipBlanks]

theorem entries?_skipBlanks (fuel : Nat) (text : List Char) :
    entries? fuel (skipBlanks text) = entries? fuel text := by
  cases fuel with
  | zero => rfl
  | succ fuel => rw [entries?, entries?, skipBlanks_skipBlanks]

/-- A list that does not end at once has items. -/
theorem value?_list {fuel : Nat} {text : List Char} {c : Char} {more : List Char}
    (start : skipBlanks text = c :: more) (open_ : c ≠ ']') :
    value? (fuel + 1) ('[' :: text) =
      (items? fuel text).map fun found => (.list found.1, found.2) := by
  rw [value?, skipBlanks_cons (by decide)]
  simp only [start]
  split
  · next same =>
    cases same
    exact absurd rfl open_
  · rw [← start, items?_skipBlanks]
    cases items? fuel text <;> rfl

/-- An object that does not end at once has entries. -/
theorem value?_object {fuel : Nat} {text : List Char} {c : Char} {more : List Char}
    (start : skipBlanks text = c :: more) (open_ : c ≠ '\x7d') :
    value? (fuel + 1) ('\x7b' :: text) =
      (entries? fuel text).map fun found => (ofEntries found.1, found.2) := by
  rw [value?, skipBlanks_cons (by decide)]
  simp only [start]
  split
  · next same =>
    cases same
    exact absurd rfl open_
  · rw [← start, entries?_skipBlanks]
    cases entries? fuel text <;> rfl

/-! ## Documents -/

/-- Joined parts start with the first one. -/
theorem exists_intercalate_cons (first : String) (others : List String) :
    ∃ text : List Char, (",".intercalate (first :: others)).toList = first.toList ++ text := by
  cases others with
  | nil => exact ⟨[], by rw [String.intercalate_singleton, List.append_nil]⟩
  | cons next others =>
    refine ⟨",".toList ++ (",".intercalate (next :: others)).toList, ?_⟩
    rw [String.intercalate_cons_cons, String.toList_append, String.toList_append, List.append_assoc]

theorem toList_list (depth : Nat) (item : Document) (items : List Document) :
    (render depth (.list (item :: items))).toList =
      '[' :: ((",".intercalate (renderItems (depth + 1) (item :: items))).toList ++
        ((line depth).toList ++ [']'])) := by
  have printed : render depth (.list (item :: items)) =
      "[" ++ ",".intercalate (renderItems (depth + 1) (item :: items)) ++ line depth ++ "]" := rfl
  rw [printed]
  simp only [String.toList_append, List.append_assoc]
  rfl

theorem toList_object (depth : Nat) (entry : String × Document)
    (entries : List (String × Document)) :
    (render depth (.object (entry :: entries))).toList =
      '\x7b' :: ((",".intercalate (renderEntries (depth + 1) (entry :: entries))).toList ++
        ((line depth).toList ++ ['\x7d'])) := by
  have printed : render depth (.object (entry :: entries)) =
      "\x7b" ++ ",".intercalate (renderEntries (depth + 1) (entry :: entries)) ++ line depth ++
        "\x7d" := rfl
  rw [printed]
  simp only [String.toList_append, List.append_assoc]
  rfl

theorem toList_quote (s : String) :
    (quote s).toList = '"' :: (s.toList.flatMap escape ++ ['"']) := by
  rw [quote, String.toList_ofList]
  rfl

/-- A printed document starts with what is neither a blank nor the end of a list. -/
theorem render_head (depth : Nat) (d : Document) :
    ∃ c text, (render depth d).toList = c :: text ∧ isBlank c = false ∧ c ≠ ']' := by
  cases d with
  | null | other => exact ⟨'n', ['u', 'l', 'l'], by simp [render], rfl, by decide⟩
  | bool b =>
    cases b with
    | true => exact ⟨'t', ['r', 'u', 'e'], by rw [render]; decide, rfl, by decide⟩
    | false => exact ⟨'f', ['a', 'l', 's', 'e'], by rw [render]; decide, rfl, by decide⟩
  | text s => exact ⟨'"', _, toList_quote s, rfl, by decide⟩
  | list items =>
    cases items with
    | nil => exact ⟨'[', [']'], by simp [render], rfl, by decide⟩
    | cons item items => exact ⟨'[', _, toList_list depth item items, rfl, by decide⟩
  | object entries =>
    cases entries with
    | nil => exact ⟨'\x7b', ['\x7d'], by simp [render], rfl, by decide⟩
    | cons entry entries => exact ⟨'\x7b', _, toList_object depth entry entries, rfl, by decide⟩

theorem items?_last {text closing : List Char} {d : Document} (blank : Blank closing)
    (read : value? fuel text = some (d, closing ++ ']' :: rest)) :
    items? (fuel + 1) text = some ([d], rest) := by
  rw [items?, read]
  simp only [Option.bind_eq_bind, Option.bind_some, skipBlanks_append blank,
    skipBlanks_cons (show isBlank ']' = false by decide)]
  rfl

theorem items?_next {text more : List Char} {d : Document} {items : List Document}
    (read : value? fuel text = some (d, ',' :: more))
    (others : items? fuel more = some (items, rest)) :
    items? (fuel + 1) text = some (d :: items, rest) := by
  rw [items?, read]
  simp only [Option.bind_eq_bind, Option.bind_some, others,
    skipBlanks_cons (show isBlank ',' = false by decide)]
  rfl

theorem entries?_last {blanks text closing : List Char} {d : Document} (start : Blank blanks)
    (key : String) (blank : Blank closing)
    (read : value? fuel text = some (d, closing ++ '\x7d' :: rest)) :
    entries? (fuel + 1) (blanks ++ ((quote key).toList ++ ':' :: text)) =
      some ([(some key, d)], rest) := by
  rw [entries?, skipBlanks_append start, toList_quote, List.cons_append, List.append_assoc,
    skipBlanks_cons (by decide)]
  simp only [List.singleton_append, text?_quote, Option.bind_eq_bind, Option.bind_some,
    skipBlanks_cons (show isBlank ':' = false by decide), read, skipBlanks_append blank,
    skipBlanks_cons (show isBlank '\x7d' = false by decide)]
  rfl

theorem entries?_next {blanks text more : List Char} {d : Document}
    {entries : List (Option String × Document)} (start : Blank blanks) (key : String)
    (read : value? fuel text = some (d, ',' :: more))
    (others : entries? fuel more = some (entries, rest)) :
    entries? (fuel + 1) (blanks ++ ((quote key).toList ++ ':' :: text)) =
      some ((some key, d) :: entries, rest) := by
  rw [entries?, skipBlanks_append start, toList_quote, List.cons_append, List.append_assoc,
    skipBlanks_cons (by decide)]
  simp only [List.singleton_append, text?_quote, Option.bind_eq_bind, Option.bind_some,
    skipBlanks_cons (show isBlank ':' = false by decide), read,
    skipBlanks_cons (show isBlank ',' = false by decide), others]
  rfl

/-- Keys that are texts are the keys of an object. -/
theorem ofEntries_known (entries : List (String × Document)) :
    ofEntries (entries.map fun entry => (some entry.1, entry.2)) = .object entries := by
  have whole : (entries.map fun entry => (some entry.1, entry.2)).mapM
      (fun entry : Option String × Document => do return (← entry.1, entry.2)) = some entries := by
    induction entries with
    | nil => rfl
    | cons entry entries ih =>
      rw [List.map_cons, List.mapM_cons, ih]
      rfl
  rw [ofEntries]
  split
  · next found read =>
    cases read.symm.trans whole
    rfl
  · next read => cases read.symm.trans whole

theorem toList_comma : ",".toList = [','] := by decide

theorem toList_colon : ": ".toList = [':', ' '] := by decide

mutual

/-- A printed document is read as what it was printed for. -/
theorem value?_render (fuel depth : Nat) (rest : List Char) :
    ∀ d : Document, d.Written → (render depth d).toList.length ≤ fuel →
      value? fuel ((render depth d).toList ++ rest) = some (d, rest)
  | .null, _, enough => by
    rw [render] at enough ⊢
    obtain ⟨fuel, rfl⟩ := Nat.exists_eq_add_one.2 (Nat.lt_of_lt_of_le (by decide) enough)
    rfl
  | .other, written, _ => written.elim
  | .bool true, _, enough | .bool false, _, enough => by
    rw [render] at enough ⊢
    obtain ⟨fuel, rfl⟩ := Nat.exists_eq_add_one.2 (Nat.lt_of_lt_of_le (by decide) enough)
    rfl
  | .text s, _, enough => by
    rw [render, toList_quote] at enough ⊢
    obtain ⟨fuel, rfl⟩ := Nat.exists_eq_add_one.2 (Nat.lt_of_lt_of_le (Nat.succ_pos _) enough)
    rw [List.cons_append, List.append_assoc, value?, skipBlanks_cons (by decide)]
    simp only [List.singleton_append, text?_quote]
    rfl
  | .list [], _, enough | .object [], _, enough => by
    rw [render] at enough ⊢
    obtain ⟨fuel, rfl⟩ := Nat.exists_eq_add_one.2 (Nat.lt_of_lt_of_le (by decide) enough)
    rfl
  | .list (item :: items), written, enough => by
    rw [toList_list] at enough ⊢
    simp only [List.length_cons, List.length_append, List.cons_append,
      List.append_assoc] at enough ⊢
    obtain ⟨fuel, rfl⟩ := Nat.exists_eq_add_one.2 (show 0 < fuel by omega)
    obtain ⟨c, more, head, dark, inside⟩ := render_head (depth + 1) item
    obtain ⟨others, first⟩ := exists_intercalate_cons (line (depth + 1) ++ render (depth + 1) item)
      (renderItems (depth + 1) items)
    have start (after : List Char) :
        skipBlanks ((",".intercalate (renderItems (depth + 1) (item :: items))).toList ++ after) =
          c :: (more ++ (others ++ after)) := by
      rw [renderItems, first, String.toList_append, head, List.append_assoc, List.append_assoc,
        skipBlanks_append (blank_line _)]
      exact skipBlanks_cons dark _
    rw [value?_list (start _) inside]
    have read := items?_render fuel (depth + 1) (blank_line depth) rest (item :: items)
      (List.cons_ne_nil _ _) written (by omega)
    exact congrArg (Option.map fun found => (Document.list found.1, found.2)) read
  | .object ((key, d) :: entries), written, enough => by
    rw [toList_object] at enough ⊢
    simp only [List.length_cons, List.length_append, List.cons_append,
      List.append_assoc] at enough ⊢
    obtain ⟨fuel, rfl⟩ := Nat.exists_eq_add_one.2 (show 0 < fuel by omega)
    obtain ⟨others, first⟩ := exists_intercalate_cons
      (line (depth + 1) ++ quote key ++ ": " ++ render (depth + 1) d)
      (renderEntries (depth + 1) entries)
    have start (after : List Char) : ∃ more,
        skipBlanks ((",".intercalate (renderEntries (depth + 1) ((key, d) :: entries))).toList ++
          after) = '"' :: more := by
      rw [renderEntries, first]
      simp only [String.toList_append, toList_quote, List.append_assoc, List.cons_append]
      rw [skipBlanks_append (blank_line _)]
      exact ⟨_, skipBlanks_cons (by decide) _⟩
    obtain ⟨more, start⟩ := start ((line depth).toList ++ '\x7d' :: rest)
    have read := entries?_render fuel (depth + 1) (blank_line depth) rest ((key, d) :: entries)
      (List.cons_ne_nil _ _) written (by omega)
    refine (value?_object start (by decide)).trans ?_
    rw [read, Option.map_some, ofEntries_known]

theorem items?_render (fuel depth : Nat) {closing : List Char} (blank : Blank closing)
    (rest : List Char) :
    ∀ items : List Document, items ≠ [] → Document.WrittenItems items →
      (",".intercalate (renderItems depth items)).toList.length ≤ fuel →
      items? fuel ((",".intercalate (renderItems depth items)).toList ++ (closing ++ ']' :: rest)) =
        some (items, rest)
  | [], present, _, _ => absurd rfl present
  | [item], _, written, enough => by
    have wide := length_line_pos depth
    rw [renderItems, renderItems, String.intercalate_singleton, String.toList_append] at enough ⊢
    rw [List.length_append] at enough
    obtain ⟨fuel, rfl⟩ := Nat.exists_eq_add_one.2 (show 0 < fuel by omega)
    refine items?_last blank ?_
    rw [List.append_assoc, value?_append (blank_line depth)]
    exact value?_render fuel depth _ item written.1 (by omega)
  | item :: next :: items, _, written, enough => by
    have wide := length_line_pos depth
    rw [renderItems, renderItems, String.intercalate_cons_cons, ← renderItems] at enough ⊢
    simp only [String.toList_append, List.length_append, List.append_assoc,
      toList_comma] at enough ⊢
    obtain ⟨fuel, rfl⟩ := Nat.exists_eq_add_one.2 (show 0 < fuel by omega)
    have others := items?_render fuel depth blank rest (next :: items) (List.cons_ne_nil _ _)
      written.2 (by omega)
    refine items?_next ?_ others
    rw [value?_append (blank_line depth)]
    exact value?_render fuel depth _ item written.1 (by omega)

theorem entries?_render (fuel depth : Nat) {closing : List Char} (blank : Blank closing)
    (rest : List Char) :
    ∀ entries : List (String × Document), entries ≠ [] → Document.WrittenEntries entries →
      (",".intercalate (renderEntries depth entries)).toList.length ≤ fuel →
      entries? fuel
          ((",".intercalate (renderEntries depth entries)).toList ++ (closing ++ '\x7d' :: rest)) =
        some (entries.map fun entry => (some entry.1, entry.2), rest)
  | [], present, _, _ => absurd rfl present
  | [(key, d)], _, written, enough => by
    have wide := length_line_pos depth
    rw [renderEntries, renderEntries, String.intercalate_singleton] at enough ⊢
    simp only [String.toList_append, List.length_append, List.append_assoc,
      toList_colon] at enough ⊢
    obtain ⟨fuel, rfl⟩ := Nat.exists_eq_add_one.2 (show 0 < fuel by omega)
    have read := value?_render fuel depth (closing ++ '\x7d' :: rest) d written.1 (by omega)
    refine entries?_last (blank_line depth) key blank ?_
    exact (value?_append (by simp [Blank, isBlank]) fuel _).trans read
  | (key, d) :: (later, e) :: entries, _, written, enough => by
    have wide := length_line_pos depth
    rw [renderEntries, renderEntries, String.intercalate_cons_cons, ← renderEntries] at enough ⊢
    simp only [String.toList_append, List.length_append, List.append_assoc, toList_colon,
      toList_comma] at enough ⊢
    obtain ⟨fuel, rfl⟩ := Nat.exists_eq_add_one.2 (show 0 < fuel by omega)
    have others := entries?_render fuel depth blank rest ((later, e) :: entries)
      (List.cons_ne_nil _ _) written.2 (by omega)
    have read (after : List Char) := value?_render fuel depth after d written.1 (by omega)
    refine entries?_next (blank_line depth) key ?_ others
    exact (value?_append (by simp [Blank, isBlank]) fuel _).trans (read _)

end

/-- A whole text is read as the document that it was printed for. -/
theorem parse?_render {d : Document} (written : d.Written) : parse? (render 0 d) = some d := by
  have enough : (render 0 d).toList.length ≤ (render 0 d).length + 1 := by
    rw [String.length_toList]
    exact Nat.le_succ _
  have read := value?_render _ 0 [] d written enough
  rw [List.append_nil] at read
  rw [parse?, read]
  rfl

end Json

end ScriptHost
