import ScriptHost.Proofs.TomlTexts

/-!
# Printed lines read back

A line of a printed table is a header or a key with its value.  The reader takes one step for each,
and the blank lines between the parts of a document cost none.
-/

namespace ScriptHost

namespace Toml

variable {c : Char} {text rest : List Char} {fuel depth : Nat}

/-! ## Space -/

/-- Characters that neither are space nor start a comment. -/
def isDark (c : Char) : Bool := !isBlank c && c != '\n' && c != '\r' && c != '#'

theorem skipBlanks_dark (dark : isDark c = true) (rest : List Char) :
    skipBlanks (c :: rest) = c :: rest := by
  apply skipBlanks_cons
  simp only [isDark, Bool.and_eq_true, Bool.not_eq_true'] at dark
  exact dark.1.1.1

theorem skipSpace_dark (dark : isDark c = true) (rest : List Char) :
    skipSpace (c :: rest) = c :: rest := by
  simp only [isDark, Bool.and_eq_true, Bool.not_eq_true', bne_iff_ne] at dark
  obtain ⟨⟨⟨blank, new⟩, back⟩, comment⟩ := dark
  simp [skipSpace, skipFrom, blank, new, back, comment]

theorem skipSpace_newline (rest : List Char) : skipSpace ('\n' :: rest) = skipSpace rest := by
  rw [skipSpace, skipFrom, if_pos rfl]
  rfl

theorem skipSpace_blank (blank : isBlank c = true) (rest : List Char) :
    skipSpace (c :: rest) = skipSpace rest := by
  have new : c ≠ '\n' := by
    rintro rfl
    cases blank
  have back : c ≠ '\r' := by
    rintro rfl
    cases blank
  rw [skipSpace, skipFrom, if_neg new, if_neg fun ends => back ends.1]
  simp [blank, skipSpace]

theorem endOfLine?_newline (rest : List Char) : endOfLine? ('\n' :: rest) = some rest := rfl

/-! ## Values on a line -/

/-- Values that stand behind their key. -/
inductive OnLine : Document → Prop where
  | bool (b : Bool) : OnLine (.bool b)
  | text (s : String) : OnLine (.text s)
  | texts (items : List String) : OnLine (.list (items.map .text))

theorem quote_head (s : String) :
    ∃ c more, (quote s).toList = c :: more ∧ (c = '"' ∨ c = '\'') := by
  cases form : textForm (traits s.toList) with
  | basic | longBasic =>
    simp only [quote, form, String.toList_append, String.reduceToList, List.cons_append]
    exact ⟨'"', _, rfl, .inl rfl⟩
  | literal | longLiteral =>
    simp only [quote, form, String.toList_append, String.reduceToList, List.cons_append]
    exact ⟨'\'', _, rfl, .inr rfl⟩

theorem value?_text (s : String) (double : rest.head? ≠ some '"')
    (single : rest.head? ≠ some '\'') :
    value? (fuel + 1) depth ((quote s).toList ++ rest) = some (.text s, rest) := by
  have read := string?_quote s double single
  obtain ⟨c, more, start, mark⟩ := quote_head s
  rw [start, List.cons_append] at read ⊢
  rw [value?.eq_def]
  simp only
  split
  · next same =>
    obtain rfl | rfl := mark
    all_goals cases same
  · next same =>
    obtain rfl | rfl := mark
    all_goals cases same
  · simp [read]

theorem value?_bool (b : Bool) (rest : List Char) :
    value? (fuel + 1) depth ((toString b).toList ++ '\n' :: rest) =
      some (.bool b, '\n' :: rest) := by
  cases b with
  | true => rfl
  | false => rfl

/-- Space before a text does not count. -/
theorem skipSpace_quote {space : List Char} (blank : ∀ c ∈ space, isBlank c ∨ c = '\n') (s : String)
    (rest : List Char) :
    skipSpace (space ++ ((quote s).toList ++ rest)) = (quote s).toList ++ rest := by
  induction space with
  | nil =>
    obtain ⟨c, more, start, rfl | rfl⟩ := quote_head s
    all_goals
      rw [start]
      exact skipSpace_dark rfl _
  | cons c space ih =>
    obtain ⟨first | first, others⟩ := List.forall_mem_cons.1 blank
    · exact (skipSpace_blank first _).trans (ih others)
    · rw [first]
      exact (skipSpace_newline _).trans (ih others)

/-- A text among the items of a list, with the items after it or the end of the list. -/
theorem items?_text (space : List Char) (blank : ∀ c ∈ space, isBlank c ∨ c = '\n') (s : String)
    {items : List Document} {after : List Char} (double : rest.head? ≠ some '"')
    (single : rest.head? ≠ some '\'')
    (others : (skipSpace rest = ']' :: after ∧ items = []) ∨ ∃ more,
      skipSpace rest = ',' :: more ∧ items? (fuel + 1) depth more = some (items, after)) :
    items? (fuel + 2) depth (space ++ ((quote s).toList ++ rest)) =
      some (.text s :: items, after) := by
  have skip := skipSpace_quote blank s rest
  have read : value? (fuel + 1) depth ((quote s).toList ++ rest) = some (.text s, rest) :=
    value?_text s double single
  obtain ⟨c, tail, start, mark⟩ := quote_head s
  rw [start, List.cons_append] at skip read ⊢
  rw [items?, skip]
  simp only
  split
  · next same =>
    obtain rfl | rfl := mark
    all_goals cases same
  · obtain ⟨closes, rfl⟩ | ⟨more, comma, others⟩ := others
    · simp [read, closes]
    · simp [read, comma, others]

/-- Items on lines of their own. -/
theorem items?_inlineItems (items : List String) (rest : List Char)
    (enough : items.length < fuel) :
    items? fuel depth ('\n' :: ((inlineItems (items.map .text)).toList ++ ']' :: rest)) =
      some (items.map .text, rest) := by
  induction items generalizing fuel with
  | nil =>
    obtain ⟨fuel, rfl⟩ := Nat.exists_eq_add_one.2 enough
    rw [items?, skipSpace_newline]
    rfl
  | cons s items ih =>
    rw [List.length_cons] at enough
    obtain ⟨fuel, rfl⟩ := Nat.exists_eq_add_of_le' (show 2 ≤ fuel by omega)
    have printed : (inlineItems ((s :: items).map .text)).toList = [' ', ' ', ' ', ' '] ++
        ((quote s).toList ++ (',' :: '\n' :: (inlineItems (items.map .text)).toList)) := by
      rw [List.map_cons, inlineItems, inline]
      simp
    have blank : ∀ c ∈ ['\n', ' ', ' ', ' ', ' '], isBlank c ∨ c = '\n' := by simp [isBlank]
    rw [printed, List.append_assoc, List.append_assoc, ← List.cons_append]
    apply items?_text ['\n', ' ', ' ', ' ', ' '] blank s
    · simp
    · simp
    · exact .inr ⟨_, skipSpace_dark rfl _, ih (by omega)⟩

theorem length_le_inlineItems (items : List Document) :
    items.length ≤ (inlineItems items).toList.length := by
  induction items with
  | nil => exact Nat.zero_le _
  | cons item items ih =>
    rw [inlineItems]
    simp only [String.toList_append, List.length_append, List.length_cons, String.reduceToList]
    omega

theorem value?_list {items : List Document} {after : List Char}
    (read : items? fuel depth text = some (items, after)) :
    value? (fuel + 1) (depth + 1) ('[' :: text) = some (.list items, after) := by
  rw [value?, read]
  rfl

theorem inline_single (s : String) :
    (inline (.list [.text s])).toList = '[' :: ((quote s).toList ++ [']']) := by
  rw [inline, inline]
  simp

theorem inline_lines (s next : String) (items : List String) :
    (inline (.list ((s :: next :: items).map .text))).toList =
      '[' :: '\n' :: ((inlineItems ((s :: next :: items).map .text)).toList ++ [']']) := by
  rw [List.map_cons, List.map_cons, inline]
  · simp
  · simp
  · intro item same
    cases same

/-- No space stands in front of a value. -/
theorem inline_head {d : Document} (onLine : OnLine d) :
    ∃ c more, (inline d).toList = c :: more ∧ isDark c = true := by
  cases onLine with
  | bool b =>
    rw [inline]
    cases b with
    | true => exact ⟨'t', ['r', 'u', 'e'], by decide, rfl⟩
    | false => exact ⟨'f', ['a', 'l', 's', 'e'], by decide, rfl⟩
  | text s =>
    obtain ⟨c, more, start, rfl | rfl⟩ := quote_head s
    all_goals exact ⟨_, more, start, rfl⟩
  | texts items =>
    obtain - | ⟨s, - | ⟨next, items⟩⟩ := items
    · exact ⟨'[', [']'], by decide, rfl⟩
    · exact ⟨'[', _, inline_single s, rfl⟩
    · exact ⟨'[', _, inline_lines s next items, rfl⟩

/-- A value is read up to the end of its line. -/
theorem value?_inline {d : Document} (onLine : OnLine d)
    (enough : (inline d).toList.length ≤ fuel) (rest : List Char) :
    value? fuel (depth + 1) ((inline d).toList ++ '\n' :: rest) = some (d, '\n' :: rest) := by
  cases onLine with
  | bool b =>
    rw [inline] at enough ⊢
    have wide : 0 < (toString b).toList.length := by cases b <;> decide
    obtain ⟨fuel, rfl⟩ := Nat.exists_eq_add_one.2 (Nat.lt_of_lt_of_le wide enough)
    exact value?_bool b rest
  | text s =>
    rw [inline] at enough ⊢
    obtain ⟨c, more, start, -⟩ := quote_head s
    rw [start] at enough
    obtain ⟨fuel, rfl⟩ := Nat.exists_eq_add_one.2 (Nat.lt_of_lt_of_le (Nat.succ_pos _) enough)
    exact value?_text s (by simp) (by simp)
  | texts items =>
    obtain - | ⟨s, - | ⟨next, items⟩⟩ := items
    · obtain ⟨fuel, rfl⟩ := Nat.exists_eq_add_of_le' (show 2 ≤ fuel from enough)
      rfl
    · rw [List.map_cons, List.map_nil, inline_single] at enough ⊢
      obtain ⟨c, more, start, -⟩ := quote_head s
      rw [start] at enough
      simp only [List.length_cons, List.length_append, List.length_nil] at enough
      obtain ⟨fuel, rfl⟩ := Nat.exists_eq_add_of_le' (show 3 ≤ fuel by omega)
      rw [List.cons_append, List.append_assoc]
      apply value?_list
      exact items?_text [] (List.forall_mem_nil _) s (by simp) (by simp)
        (.inl ⟨skipSpace_dark rfl _, rfl⟩)
    · have wide := length_le_inlineItems ((s :: next :: items).map .text)
      rw [inline_lines] at enough ⊢
      simp only [List.length_cons, List.length_append, List.length_map] at enough wide
      obtain ⟨fuel, rfl⟩ := Nat.exists_eq_add_one.2 (show 0 < fuel by omega)
      rw [List.cons_append, List.cons_append, List.append_assoc]
      apply value?_list
      apply items?_inlineItems
      simp only [List.length_cons]
      omega

/-! ## Keys -/

theorem isBareKey_iff {key : String} :
    isBareKey key = true ↔ key.toList ≠ [] ∧ ∀ c ∈ key.toList, isBareKeyChar c = true := by
  simp [isBareKey, isBareKeyChar]

theorem bare_head {key : String} (bare : isBareKey key = true) :
    ∃ c more, key.toList = c :: more ∧ isBareKeyChar c = true := by
  obtain ⟨present, all⟩ := isBareKey_iff.1 bare
  obtain ⟨c, more, start⟩ := List.exists_cons_of_ne_nil present
  exact ⟨c, more, start, all c (start ▸ List.mem_cons_self)⟩

theorem ne_of_bare {other : Char} (bare : isBareKeyChar c = true)
    (special : isBareKeyChar other = false) : c ≠ other := by
  rintro rfl
  cases bare.symm.trans special

/-- A bare key holds nothing that is skipped. -/
theorem isDark_of_bare (bare : isBareKeyChar c = true) : isDark c = true := by
  have space : c ≠ ' ' := ne_of_bare bare rfl
  have tab : c ≠ '\t' := ne_of_bare bare rfl
  have new : c ≠ '\n' := ne_of_bare bare rfl
  have back : c ≠ '\r' := ne_of_bare bare rfl
  have comment : c ≠ '#' := ne_of_bare bare rfl
  simp [isDark, isBlank, space, tab, new, back, comment]

/-- A key ends where no other of its characters follows. -/
theorem keyPart?_bare {key : String} (bare : isBareKey key = true)
    (ends : ∀ c ∈ rest.head?, isBareKeyChar c = false) :
    keyPart? (key.toList ++ rest) = some (key, rest) := by
  obtain ⟨present, all⟩ := isBareKey_iff.1 bare
  have content : (key.toList ++ rest).takeWhile isBareKeyChar = key.toList := by
    rw [List.takeWhile_append_of_pos all]
    cases rest with
    | nil => exact List.append_nil _
    | cons c rest => rw [List.takeWhile_cons, ends c rfl]; simp
  have nonempty : key.toList.isEmpty = false := by simpa using present
  obtain ⟨c, more, start, first⟩ := bare_head bare
  rw [keyPart?.eq_def]
  split
  · next same =>
    rw [start] at same
    exact absurd (List.cons.inj same).1 (ne_of_bare first rfl)
  · next same =>
    rw [start] at same
    exact absurd (List.cons.inj same).1 (ne_of_bare first rfl)
  · simp only [content, nonempty]
    simp

theorem skipBlanks_bare {key : String} (bare : isBareKey key = true) (rest : List Char) :
    skipBlanks (key.toList ++ rest) = key.toList ++ rest := by
  obtain ⟨c, more, start, first⟩ := bare_head bare
  rw [start]
  exact skipBlanks_dark (isDark_of_bare first) _

theorem ends_cons {d : Char} (special : isBareKeyChar d = false) (rest : List Char) :
    ∀ c ∈ (d :: rest).head?, isBareKeyChar c = false := by
  intro c same
  cases same
  exact special

/-- A path is read up to the first character that is not part of it. -/
theorem keyParts?_path {path : List String} (present : path ≠ [])
    (bare : ∀ key ∈ path, isBareKey key = true) (short : path.length ≤ depth)
    (ends : ∀ c ∈ rest.head?, isBareKeyChar c = false)
    (stops : ∀ more, skipBlanks rest ≠ '.' :: more) :
    keyParts? depth ((".".intercalate path).toList ++ rest) = some (path, skipBlanks rest) := by
  induction path generalizing depth with
  | nil => exact absurd rfl present
  | cons key path ih =>
    obtain ⟨depth, rfl⟩ := Nat.exists_eq_add_one.2 (Nat.lt_of_lt_of_le (Nat.succ_pos _) short)
    obtain ⟨first, others⟩ := List.forall_mem_cons.1 bare
    cases path with
    | nil =>
      rw [String.intercalate_singleton, keyParts?, skipBlanks_bare first, keyPart?_bare first ends]
      simp only [Option.bind_eq_bind, Option.bind_some]
      rfl
    | cons next path =>
      have read := ih (List.cons_ne_nil _ _) others (Nat.le_of_succ_le_succ short)
      have dot : ".".toList = ['.'] := rfl
      rw [String.intercalate_cons_cons, String.toList_append, String.toList_append, dot,
        List.append_assoc, List.append_assoc, List.singleton_append, keyParts?,
        skipBlanks_bare first, keyPart?_bare first (ends_cons rfl _)]
      simp only [Option.bind_eq_bind, Option.bind_some, read,
        skipBlanks_dark (show isDark '.' = true by decide)]
      rfl

/-! ## Steps of the reader -/

variable {path target : List String} {entries : Drafts} {more after : List Char}

/-- A path up to the bracket that closes it. -/
theorem key?_bracket (present : target ≠ []) (bare : ∀ key ∈ target, isBareKey key = true)
    (short : target.length ≤ depthLimit) (rest : List Char) :
    key? ((".".intercalate target).toList ++ ']' :: rest) = some (target, ']' :: rest) := by
  have bracket : skipBlanks (']' :: rest) = ']' :: rest := rfl
  have stops : ∀ more, skipBlanks (']' :: rest) ≠ '.' :: more := by
    intro more same
    cases bracket.symm.trans same
  rw [key?, keyParts?_path present bare short (ends_cons rfl rest) stops, bracket]

theorem path_head (present : target ≠ []) (bare : ∀ key ∈ target, isBareKey key = true) :
    ∃ c more, (".".intercalate target).toList = c :: more ∧ isBareKeyChar c = true := by
  obtain ⟨key, others, rfl⟩ := List.exists_cons_of_ne_nil present
  obtain ⟨c, more, start, first⟩ := bare_head (bare key List.mem_cons_self)
  cases others with
  | nil => exact ⟨c, more, by rw [String.intercalate_singleton, start], first⟩
  | cons next others =>
    rw [String.intercalate_cons_cons, String.toList_append, String.toList_append, start]
    exact ⟨c, _, rfl, first⟩

/-- A header. -/
theorem lines?_header (present : target ≠ []) (bare : ∀ key ∈ target, isBareKey key = true)
    (short : target.length ≤ depthLimit) (fuel : Nat) (rest : List Char) :
    lines? (fuel + 1) path entries (("[" ++ ".".intercalate target ++ "]\n").toList ++ rest) =
      (Draft.openTable target entries).bind fun entries => lines? fuel target entries rest := by
  have read := key?_bracket present bare short ('\n' :: rest)
  obtain ⟨c, more, start, first⟩ := path_head present bare
  have plain : c ≠ '[' := ne_of_bare first rfl
  simp only [String.toList_append, List.append_assoc, String.reduceToList, List.cons_append,
    List.nil_append, start] at read ⊢
  rw [lines?, skipSpace_dark (by decide)]
  split
  · next same => cases same
  · next same =>
    cases same
    exact absurd rfl plain
  · next same =>
    cases same
    simp only [read, Option.bind_eq_bind, Option.bind_some, endOfLine?_newline]
  · next other => exact (other _ rfl).elim

/-- A header that is repeated. -/
theorem lines?_item (present : target ≠ []) (bare : ∀ key ∈ target, isBareKey key = true)
    (short : target.length ≤ depthLimit) (fuel : Nat) (rest : List Char) :
    lines? (fuel + 1) path entries (("[[" ++ ".".intercalate target ++ "]]\n").toList ++ rest) =
      (Draft.openItem target entries).bind fun entries => lines? fuel target entries rest := by
  have read := key?_bracket present bare short (']' :: '\n' :: rest)
  simp only [String.toList_append, List.append_assoc, String.reduceToList, List.cons_append,
    List.nil_append]
  rw [lines?.eq_def]
  simp only [skipSpace_dark (show isDark '[' = true by decide), read, Option.bind_eq_bind,
    Option.bind_some, endOfLine?_newline]

/-- A key up to the sign between it and its value. -/
theorem key?_entry {key : String} (bare : isBareKey key = true) (rest : List Char) :
    key? (key.toList ++ ' ' :: '=' :: rest) = some ([key], '=' :: rest) := by
  have sign : skipBlanks (' ' :: '=' :: rest) = '=' :: rest := rfl
  have stops : ∀ more, skipBlanks (' ' :: '=' :: rest) ≠ '.' :: more := by
    intro more same
    cases sign.symm.trans same
  have only : ∀ part ∈ [key], isBareKey part = true := by simpa using bare
  have read := keyParts?_path (List.cons_ne_nil key []) only (show 1 ≤ depthLimit by decide)
    (ends_cons rfl ('=' :: rest)) stops
  rwa [String.intercalate_singleton, sign] at read

theorem skipBlanks_inline {d : Document} (onLine : OnLine d) (rest : List Char) :
    skipBlanks (' ' :: ((inline d).toList ++ rest)) = (inline d).toList ++ rest := by
  obtain ⟨c, more, start, dark⟩ := inline_head onLine
  rw [start]
  exact skipBlanks_dark dark _

theorem toList_entry {key : String} (bare : isBareKey key = true) (d : Document)
    (rest : List Char) :
    (quoteKey key ++ " = " ++ inline d ++ "\n").toList ++ rest =
      key.toList ++ ' ' :: '=' :: ' ' :: ((inline d).toList ++ '\n' :: rest) := by
  rw [quoteKey, if_pos bare]
  simp

/-- A line with a key and its value. -/
theorem lines?_entry {key : String} {d : Document} (bare : isBareKey key = true) (onLine : OnLine d)
    (fuel : Nat) (rest : List Char) :
    lines? (fuel + 1) path entries ((quoteKey key ++ " = " ++ inline d ++ "\n").toList ++ rest) =
      (Draft.change false (Draft.addValue [key] d) path entries).bind fun entries =>
        lines? fuel path entries rest := by
  have keyRead := key?_entry bare (' ' :: ((inline d).toList ++ '\n' :: rest))
  have valueRead (fuel : Nat) (enough : (inline d).toList.length ≤ fuel) :
      value? fuel depthLimit (skipBlanks (' ' :: ((inline d).toList ++ '\n' :: rest))) =
        some (d, '\n' :: rest) := by
    rw [skipBlanks_inline onLine]
    exact value?_inline onLine enough rest
  obtain ⟨c, more, start, first⟩ := bare_head bare
  rw [toList_entry bare]
  rw [start, List.cons_append] at keyRead ⊢
  rw [lines?, skipSpace_dark (isDark_of_bare first)]
  split
  · next same => cases same
  · next same => exact absurd (List.cons.inj same).1 (ne_of_bare first rfl)
  · next same => exact absurd (List.cons.inj same).1 (ne_of_bare first rfl)
  · have enough : (inline d).toList.length ≤
        (c :: (more ++ ' ' :: '=' :: ' ' :: ((inline d).toList ++ '\n' :: rest))).length + 1 := by
      simp only [List.length_cons, List.length_append]
      omega
    simp only [keyRead, valueRead _ enough, Option.bind_eq_bind, Option.bind_some,
      endOfLine?_newline]

end Toml

end ScriptHost
