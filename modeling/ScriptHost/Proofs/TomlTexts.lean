import Mathlib.Tactic.SplitIfs
import ScriptHost.Settings.Toml.Printer
import ScriptHost.Settings.Toml.Reader

/-!
# Quoted texts read back

The printer chooses one of four forms for a text, and the reader finds the text in each of them.  In
the long forms quotes may stand as they are, as long as no three of them come one after another; up
to two of them may come right before the three that close the text.
-/

namespace ScriptHost

namespace Toml

variable {c : Char} {text rest : List Char} {fuel : Nat}

/-! ## Escapes -/

/-- A control character is read from its code point. -/
theorem codePoint?_control {n : Nat} (small : n < 128) (rest : List Char) :
    codePoint? 4 ('0' :: '0' :: upperHex (n / 16) :: upperHex (n % 16) :: rest) =
      some (Char.ofNat n, rest) := by
  have digits : ∀ n < 128,
      Numeral.digits 16 ['0', '0', upperHex (n / 16), upperHex (n % 16)] 0 0 = (n, 4, []) := by
    decide
  have valid : n.isValidChar := .inl (by omega)
  simp [codePoint?, digits n small, valid]

/-- What stands for a character in an escaped text: itself or an escape that is read as it. -/
inductive Spelled (c : Char) : List Char → Prop where
  | plain (open_ : c ≠ '\\') (printable : isForbidden c = false) : Spelled c [c]
  | escaped {spelling : List Char}
      (read : ∀ rest, escape? (spelling ++ rest) = some (c, rest))
      (inside : ∀ rest, continued? (spelling ++ rest) = none) : Spelled c ('\\' :: spelling)

theorem lineEnd?_of_ne {e : Char} (new : e ≠ '\n') (back : e ≠ '\r') (rest : List Char) :
    lineEnd? (e :: rest) = none := by
  unfold lineEnd?
  split
  · next same =>
    cases same
    exact absurd rfl new
  · next same =>
    cases same
    exact absurd rfl back
  · rfl

theorem skipBlanks_cons {e : Char} (dark : isBlank e = false) (rest : List Char) :
    skipBlanks (e :: rest) = e :: rest := by
  rw [skipBlanks, List.dropWhile_cons, dark]
  rfl

theorem continued?_of_dark {e : Char} (dark : isBlank e = false) (new : e ≠ '\n') (back : e ≠ '\r')
    (rest : List Char) : continued? (e :: rest) = none := by
  rw [continued?, skipBlanks_cons dark, lineEnd?_of_ne new back]
  rfl

theorem Spelled.short {e : Char} (dark : isBlank e = false) (new : e ≠ '\n') (back : e ≠ '\r')
    (read : ∀ rest, escape? (e :: rest) = some (c, rest)) : Spelled c ['\\', e] :=
  .escaped read fun _ => continued?_of_dark dark new back _

theorem isForbidden_of_plain (new : c ≠ '\n') (control : isControl c = false) :
    isForbidden c = false := by
  simp only [isControl, Bool.or_eq_false_iff, Bool.and_eq_false_iff, decide_eq_false_iff_not,
    bne_eq_false_iff_eq, beq_eq_false_iff_ne] at control
  obtain ⟨(large | rfl) | rfl, other⟩ := control
  · simp [isForbidden, other]
    omega
  · rfl
  · exact absurd rfl new

theorem spelled_escapeControl (c : Char) : Spelled c (escapeControl c) := by
  unfold escapeControl
  split_ifs with bell tab new form back slash control
  · exact bell ▸ .short rfl (by decide) (by decide) fun _ => rfl
  · exact tab ▸ .short rfl (by decide) (by decide) fun _ => rfl
  · exact new ▸ .short rfl (by decide) (by decide) fun _ => rfl
  · exact form ▸ .short rfl (by decide) (by decide) fun _ => rfl
  · exact back ▸ .short rfl (by decide) (by decide) fun _ => rfl
  · subst slash
    exact .short rfl (by decide) (by decide) fun _ => rfl
  · refine .escaped (fun rest => ?_) fun _ => continued?_of_dark rfl (by decide) (by decide) _
    have small : c.toNat < 128 := by
      simp only [isControl, Bool.or_eq_true, Bool.and_eq_true, decide_eq_true_eq,
        beq_iff_eq] at control
      omega
    have read := codePoint?_control small rest
    rw [Char.ofNat_toNat] at read
    exact read
  · exact .plain slash (isForbidden_of_plain new (by simpa using control))

theorem spelled_quote : Spelled '"' ['\\', '"'] :=
  .short rfl (by decide) (by decide) fun _ => rfl

theorem Spelled.length_pos {spelling : List Char} (spelled : Spelled c spelling) :
    0 < spelling.length := by
  cases spelled <;> exact Nat.succ_pos _

/-- Only a quote can be spelled as a quote. -/
theorem Spelled.eq_of_quote {spelling : List Char} (spelled : Spelled c spelling)
    (same : spelling = ['"']) : c = '"' := by
  cases spelled with
  | plain => exact (List.cons.inj same).1
  | escaped => cases same

/-! ## Texts on one line -/

theorem basic?_spelled {spelling content : List Char} (spelled : Spelled c spelling)
    (quote : spelling ≠ ['"']) (read : basic? fuel text = some (content, rest)) :
    basic? (fuel + 1) (spelling ++ text) = some (c :: content, rest) := by
  cases spelled with
  | plain open_ printable =>
    have other : c ≠ '"' := by
      rintro rfl
      exact quote rfl
    rw [List.singleton_append, basic?.eq_def]
    simp [other, open_, printable, read]
  | @escaped tail escape inside =>
    rw [List.cons_append, basic?.eq_def]
    simp [escape text, read]

/-- A text between quotes is read as the text. -/
theorem basic?_escapeText (enough : (escapeText false 0 text 0).length < fuel) :
    basic? fuel (escapeText false 0 text 0 ++ '"' :: rest) = some (text, rest) := by
  induction text generalizing fuel with
  | nil =>
    cases fuel with
    | zero => cases enough
    | succ fuel => rfl
  | cons c text ih =>
    cases fuel with
    | zero => cases enough
    | succ fuel =>
      rw [escapeText] at enough ⊢
      by_cases isQuote : c = '"'
      · subst isQuote
        rw [if_pos rfl, if_neg (Nat.not_lt_zero 0)] at enough ⊢
        simp only [List.length_cons] at enough
        have read := ih (show (escapeText false 0 text 0).length < fuel by omega)
        exact (basic?_spelled spelled_quote (by simp) read :)
      · simp only [if_neg isQuote, Bool.false_eq_true, and_false, if_false] at enough ⊢
        have spelled := spelled_escapeControl c
        have wide := spelled.length_pos
        rw [List.length_append] at enough
        rw [List.append_assoc]
        refine basic?_spelled spelled ?_ (ih (by omega))
        intro same
        exact isQuote (spelled.eq_of_quote same)

/-- A text that holds no quote and no control character is read as it is. -/
theorem literal?_append (open_ : ∀ c ∈ text, c ≠ '\'' ∧ isForbidden c = false) (rest : List Char) :
    literal? (text ++ '\'' :: rest) = some (text, rest) := by
  have content :
      (text ++ '\'' :: rest).takeWhile (fun c => c != '\'' && !isForbidden c) = text := by
    induction text with
    | nil => rfl
    | cons c text ih =>
      obtain ⟨⟨quote, printable⟩, others⟩ := List.forall_mem_cons.1 open_
      rw [List.cons_append, List.takeWhile_cons, if_pos (by simp [quote, printable]), ih others]
  rw [literal?]
  simp only [content, List.drop_left]

/-! ## Runs of quotes -/

theorem longestRun_mono (c : Char) (text : List Char) {run larger : Nat} (le : run ≤ larger) :
    longestRun c text run ≤ longestRun c text larger := by
  induction text generalizing run larger with
  | nil => exact le
  | cons d text ih =>
    rw [longestRun, longestRun]
    split
    · exact ih (Nat.succ_le_succ le)
    · omega

/-- The runs of a text are among those of a longer one. -/
theorem longestRun_tail (c d : Char) (text : List Char) :
    longestRun c text 0 ≤ longestRun c (d :: text) 0 := by
  rw [longestRun]
  split
  · exact longestRun_mono c text (Nat.zero_le 1)
  · exact Nat.le_max_right _ _

/-- The run at the start of a text is no longer than the longest one. -/
theorem takeWhile_le_longestRun (c : Char) (text : List Char) (run : Nat) :
    run + (text.takeWhile (· == c)).length ≤ longestRun c text run := by
  induction text generalizing run with
  | nil => exact Nat.le_refl _
  | cons d text ih =>
    rw [longestRun, List.takeWhile_cons]
    by_cases same : d = c
    · have step := ih (run + 1)
      simp only [same, beq_self_eq_true, if_true, List.length_cons]
      omega
    · simp only [if_neg same, beq_eq_false_iff_ne.2 same]
      exact Nat.le_max_left _ _

theorem not_mem_of_longestRun (none : longestRun c text 0 = 0) : c ∉ text := by
  induction text with
  | nil => exact List.not_mem_nil
  | cons d text ih =>
    have tail := longestRun_tail c d text
    have start := takeWhile_le_longestRun c (d :: text) 0
    intro inside
    rcases List.mem_cons.1 inside with rfl | inside
    · simp at start
      omega
    · exact ih (by omega) inside

/-! ## Texts on several lines -/

variable {mark : Char}

/-- Up to two quotes may come before those that close a text. -/
theorem closing?_replicate {kept : Nat} (few : kept ≤ 2) (after : rest.head? ≠ some mark) :
    closing? mark (List.replicate kept mark ++ mark :: mark :: mark :: rest) =
      some (List.replicate kept mark, rest) := by
  have stop : rest.takeWhile (· == mark) = [] := by
    cases rest with
    | nil => rfl
    | cons c rest =>
      have other : c ≠ mark := fun same => after (congrArg some same)
      rw [List.takeWhile_cons, if_neg (by simpa using other)]
  have whole : List.replicate kept mark ++ mark :: mark :: mark :: rest =
      List.replicate (kept + 3) mark ++ rest := by
    rw [← List.replicate_append_replicate, List.append_assoc]
    rfl
  have run :
      ((List.replicate (kept + 3) mark ++ rest).takeWhile (· == mark)).length = kept + 3 := by
    rw [List.takeWhile_append_of_pos, stop, List.append_nil, List.length_replicate]
    intro c inside
    rw [List.eq_of_mem_replicate inside, beq_self_eq_true]
  have kept_eq : min (kept + 3 - 3) 2 = kept := by omega
  rw [whole, closing?, run, if_neg (by omega)]
  simp only [kept_eq, List.drop_left' List.length_replicate]

/-- Fewer than three quotes do not close a text. -/
theorem closing?_open (few : (text.takeWhile (· == mark)).length ≤ 2) :
    closing? mark text = none := by
  rw [closing?, if_pos (by omega)]

/-- After `run` quotes, what is left of a text is two quotes at most or closes nothing at once. -/
def Sparse (mark : Char) (run : Nat) (spelling : List Char) : Prop :=
  (∃ n, run + n ≤ 2 ∧ spelling = List.replicate n mark) ∨
    ∀ after, run + ((spelling ++ after).takeWhile (· == mark)).length ≤ 2

theorem Sparse.nil {run : Nat} (few : run ≤ 2) : Sparse mark run [] := .inl ⟨0, few, rfl⟩

theorem Sparse.quoted {run : Nat} {spelling : List Char} (sparse : Sparse mark (run + 1) spelling) :
    Sparse mark run (mark :: spelling) := by
  obtain ⟨n, few, rfl⟩ | few := sparse
  · exact .inl ⟨n + 1, by omega, rfl⟩
  · refine .inr fun after => ?_
    have step := few after
    rw [List.cons_append, List.takeWhile_cons, if_pos (by simp), List.length_cons]
    omega

theorem Sparse.other {run : Nat} {d : Char} (few : run ≤ 2) (other : d ≠ mark)
    (spelling : List Char) : Sparse mark run (d :: spelling) := by
  refine .inr fun after => ?_
  rw [List.cons_append, List.takeWhile_cons, if_neg (by simpa using other)]
  exact few

/-- A text in which at most two quotes follow one another. -/
theorem sparse_of_longestRun {run : Nat} (few : longestRun mark text run ≤ 2) :
    Sparse mark run text := by
  induction text generalizing run with
  | nil => exact .nil few
  | cons d text ih =>
    rw [longestRun] at few
    split at few
    · next same => exact same ▸ (ih few).quoted
    · next other => exact .other (by omega) other _

theorem escapeControl_head (c : Char) : ∃ d spelling, escapeControl c = d :: spelling ∧
    (d = '\\' ∨ d = c ∧ c ≠ '\n' ∧ c ≠ '\r') := by
  unfold escapeControl
  split_ifs with bell tab new form back slash control
  all_goals first
    | exact ⟨_, _, rfl, .inl rfl⟩
    | exact ⟨_, _, rfl, .inr ⟨rfl, new, back⟩⟩

/-- What is written for another character does not start with a quote. -/
theorem escapeControl_open {mark : Char} (other : c ≠ mark) (plain : mark ≠ '\\') :
    ∃ d spelling, escapeControl c = d :: spelling ∧ d ≠ mark := by
  obtain ⟨d, spelling, start, slash | ⟨same, -⟩⟩ := escapeControl_head c
  · exact ⟨d, spelling, start, slash ▸ plain.symm⟩
  · exact ⟨d, spelling, start, same ▸ other⟩

/-- The printer escapes every third quote. -/
theorem sparse_escapeText {run : Nat} (few : run ≤ 2) (text : List Char) :
    Sparse '"' run (escapeText true 2 text run) := by
  induction text generalizing run with
  | nil => exact .nil few
  | cons c text ih =>
    rw [escapeText]
    split_ifs with isQuote room isEnd
    · exact isQuote ▸ (ih room).quoted
    · exact .other few (by decide) _
    · exact .other few isQuote _
    · obtain ⟨d, spelling, start, open_⟩ := escapeControl_open isQuote (by decide)
      rw [start]
      exact .other few open_ _

/-- What is written as quotes only is these quotes. -/
theorem eq_of_escapeText {run n : Nat}
    (same : escapeText true 2 text run = List.replicate n '"') : text = List.replicate n '"' := by
  induction text generalizing run n with
  | nil =>
    cases n with
    | zero => rfl
    | succ n => cases same
  | cons c text ih =>
    rw [escapeText] at same
    cases n with
    | zero =>
      obtain ⟨d, spelling, start, -⟩ := escapeControl_head c
      rw [start] at same
      split_ifs at same <;> cases same
    | succ n =>
      rw [List.replicate_succ] at same ⊢
      split_ifs at same with isQuote room isEnd
      · rw [isQuote, ih (List.cons.inj same).2]
      · exact absurd (List.cons.inj same).1 (by decide)
      · exact absurd (List.cons.inj same).1 isQuote
      · obtain ⟨d, spelling, start, open_⟩ := escapeControl_open isQuote (by decide)
        rw [start] at same
        exact absurd (List.cons.inj same).1 open_

theorem long?_closing {found : List Char × List Char} (closes : closing? mark text = some found)
    (fuel : Nat) : long? mark (fuel + 1) text = some found := by
  rw [long?.eq_def]
  simp only [closes]

/-- A character that stands for itself. -/
theorem long?_raw {content : List Char} (open_ : closing? mark (c :: text) = none)
    (slash : c = '\\' → mark ≠ '"') (allowed : isForbidden c = false ∨ c = '\n')
    (read : long? mark fuel text = some (content, rest)) :
    long? mark (fuel + 1) (c :: text) = some (c :: content, rest) := by
  have printable : ¬ (isForbidden c ∧ (lineEnd? (c :: text)).isNone) := by
    obtain printable | rfl := allowed
    · simp [printable]
    · simp [lineEnd?]
  have plain : ¬ (c = '\\' ∧ mark = '"') := fun both => slash both.1 both.2
  rw [long?, open_]
  simp only [if_neg plain, if_neg printable, read]
  rfl

theorem long?_spelled {spelling content : List Char} (spelled : Spelled c spelling)
    (open_ : closing? '"' (spelling ++ text) = none)
    (read : long? '"' fuel text = some (content, rest)) :
    long? '"' (fuel + 1) (spelling ++ text) = some (c :: content, rest) := by
  cases spelled with
  | plain slash printable =>
    exact long?_raw open_ (fun same => absurd same slash) (.inl printable) read
  | @escaped tail escape inside =>
    rw [List.cons_append] at open_ ⊢
    rw [long?, open_]
    simp [escape text, inside text, read]

/-- A text is read as it is up to the quotes after it. -/
theorem long?_append (open_ : ∀ c ∈ text, isForbidden c = false ∨ c = '\n')
    (few : longestRun '\'' text 0 ≤ 2) (after : rest.head? ≠ some '\'')
    (enough : text.length < fuel) :
    long? '\'' fuel (text ++ '\'' :: '\'' :: '\'' :: rest) = some (text, rest) := by
  induction text generalizing fuel with
  | nil =>
    obtain ⟨fuel, rfl⟩ := Nat.exists_eq_add_one.2 (Nat.lt_of_le_of_lt (Nat.zero_le _) enough)
    exact long?_closing (closing?_replicate (Nat.zero_le 2) after) fuel
  | cons c text ih =>
    obtain ⟨fuel, rfl⟩ := Nat.exists_eq_add_one.2 (Nat.lt_of_le_of_lt (Nat.zero_le _) enough)
    obtain ⟨n, short, same⟩ | short := sparse_of_longestRun few
    · rw [same]
      exact long?_closing (closing?_replicate (by omega) after) fuel
    · obtain ⟨first, others⟩ := List.forall_mem_cons.1 open_
      have tail := longestRun_tail '\'' c text
      rw [List.length_cons] at enough
      refine long?_raw (closing?_open ?_) (fun _ => by decide) first
        (ih others (by omega) (by omega))
      have start := short ('\'' :: '\'' :: '\'' :: rest)
      rwa [Nat.zero_add] at start

/-- An escaped text is read as the text. -/
theorem long?_escapeText {run : Nat} (few : run ≤ 2) (after : rest.head? ≠ some '"')
    (enough : (escapeText true 2 text run).length < fuel) :
    long? '"' fuel (escapeText true 2 text run ++ '"' :: '"' :: '"' :: rest) =
      some (text, rest) := by
  induction text generalizing run fuel with
  | nil =>
    obtain ⟨fuel, rfl⟩ := Nat.exists_eq_add_one.2 (Nat.lt_of_le_of_lt (Nat.zero_le _) enough)
    exact long?_closing (closing?_replicate (Nat.zero_le 2) after) fuel
  | cons c text ih =>
    obtain ⟨fuel, rfl⟩ := Nat.exists_eq_add_one.2 (Nat.lt_of_le_of_lt (Nat.zero_le _) enough)
    obtain ⟨n, short, same⟩ | short := sparse_escapeText few (c :: text)
    · rw [same, eq_of_escapeText same]
      exact long?_closing (closing?_replicate (by omega) after) fuel
    · have start := short ('"' :: '"' :: '"' :: rest)
      have open_ := closing?_open (Nat.le_trans (Nat.le_add_left _ run) start)
      rw [escapeText] at enough open_ ⊢
      split_ifs at enough open_ ⊢ with isQuote room isEnd
      · exact long?_raw open_ (fun slash => absurd (isQuote.symm.trans slash) (by decide))
          (.inl (isQuote ▸ rfl)) (ih room (by simpa using enough))
      · subst isQuote
        simp only [List.length_cons] at enough
        have read := ih (Nat.zero_le 2) (show (escapeText true 2 text 0).length < fuel by omega)
        exact (long?_spelled spelled_quote open_ read :)
      · simp only [List.length_cons] at enough
        exact long?_raw open_ (fun slash => absurd (isEnd.1.symm.trans slash) (by decide))
          (.inr isEnd.1) (ih (Nat.zero_le 2) (by omega))
      · have spelled := spelled_escapeControl c
        have wide := spelled.length_pos
        rw [List.length_append] at enough
        rw [List.append_assoc] at open_ ⊢
        exact long?_spelled spelled open_ (ih (Nat.zero_le 2) (by omega))

/-! ## All forms -/

theorem dropFirstLineEnd_of_ne {d : Char} (new : d ≠ '\n') (back : d ≠ '\r') (rest : List Char) :
    dropFirstLineEnd (d :: rest) = d :: rest := by
  rw [dropFirstLineEnd, lineEnd?_of_ne new back]
  rfl

/-- A written text starts with a line end only if the text holds one. -/
theorem dropFirstLineEnd_escapeText (flat : '\n' ∉ text) (rest : List Char) :
    dropFirstLineEnd (escapeText true 2 text 0 ++ '"' :: rest) =
      escapeText true 2 text 0 ++ '"' :: rest := by
  cases text with
  | nil => exact dropFirstLineEnd_of_ne (by decide) (by decide) rest
  | cons c text =>
    have notEnd : c ≠ '\n' := fun same => flat (same ▸ List.mem_cons_self)
    rw [escapeText]
    split_ifs with isQuote room isEnd
    · exact dropFirstLineEnd_of_ne (isQuote ▸ by decide) (isQuote ▸ by decide) _
    · exact absurd (Nat.zero_lt_succ 1) room
    · exact absurd isEnd.1 notEnd
    · obtain ⟨d, spelling, start, slash | ⟨same, new, back⟩⟩ := escapeControl_head c
      · rw [start, slash]
        exact dropFirstLineEnd_of_ne (by decide) (by decide) _
      · rw [start, same]
        exact dropFirstLineEnd_of_ne new back _

theorem dropFirstLineEnd_append (flat : '\n' ∉ text)
    (open_ : ∀ c ∈ text, isForbidden c = false ∨ c = '\n') (rest : List Char) :
    dropFirstLineEnd (text ++ '\'' :: rest) = text ++ '\'' :: rest := by
  cases text with
  | nil => exact dropFirstLineEnd_of_ne (by decide) (by decide) rest
  | cons c text =>
    have notEnd : c ≠ '\n' := fun same => flat (same ▸ List.mem_cons_self)
    refine dropFirstLineEnd_of_ne notEnd ?_ _
    rintro rfl
    obtain forbidden | new := open_ _ List.mem_cons_self
    · cases forbidden
    · cases new

theorem isForbidden_of_any (clean : text.any isControl = false) (inside : c ∈ text) :
    isForbidden c = false ∨ c = '\n' := by
  by_cases new : c = '\n'
  · exact .inr new
  · exact .inl (isForbidden_of_plain new (by simpa using List.any_eq_false.1 clean c inside))

theorem string?_basic (text : List Char) (closed : text = [] → rest.head? ≠ some '"') :
    string? ('"' :: (escapeText false 0 text 0 ++ '"' :: rest)) = some (text, rest) := by
  have read : basic? ((escapeText false 0 text 0 ++ '"' :: rest).length + 1)
      (escapeText false 0 text 0 ++ '"' :: rest) = some (text, rest) := by
    apply basic?_escapeText
    rw [List.length_append]
    omega
  rw [string?]
  · exact read
  · intro more same
    cases text with
    | nil =>
      have start : rest = '"' :: more := (List.cons.inj same).2
      exact closed rfl (congrArg List.head? start)
    | cons c text =>
      rw [escapeText] at same
      split_ifs at same with isQuote room isEnd
      · exact absurd room (Nat.lt_irrefl 0)
      · exact absurd (List.cons.inj same).1 (by decide)
      · exact absurd isEnd.2 id
      · obtain ⟨d, spelling, start, open_⟩ := escapeControl_open isQuote (by decide)
        rw [start] at same
        exact open_ (List.cons.inj same).1

theorem string?_literal (present : text ≠ [])
    (open_ : ∀ c ∈ text, c ≠ '\'' ∧ isForbidden c = false) (rest : List Char) :
    string? ('\'' :: (text ++ '\'' :: rest)) = some (text, rest) := by
  rw [string?]
  · exact literal?_append open_ rest
  · intro more same
    obtain ⟨c, text, rfl⟩ := List.exists_cons_of_ne_nil present
    exact (open_ c List.mem_cons_self).1 (List.cons.inj same).1

theorem string?_longBasic (text : List Char) (after : rest.head? ≠ some '"') :
    string? ('"' :: '"' :: '"' :: ((if text.contains '\n' then ['\n'] else []) ++
      (escapeText true 2 text 0 ++ '"' :: '"' :: '"' :: rest))) = some (text, rest) := by
  have read (fuel : Nat) (enough : (escapeText true 2 text 0).length < fuel) :
      long? '"' fuel (escapeText true 2 text 0 ++ '"' :: '"' :: '"' :: rest) = some (text, rest) :=
    long?_escapeText (Nat.zero_le 2) after enough
  rw [string?]
  split_ifs with new
  · apply read
    simp only [List.length_append]
    omega
  · rw [List.nil_append, dropFirstLineEnd_escapeText (by simpa using new)]
    apply read
    rw [List.length_append]
    omega

theorem string?_longLiteral (open_ : ∀ c ∈ text, isForbidden c = false ∨ c = '\n')
    (few : longestRun '\'' text 0 ≤ 2) (after : rest.head? ≠ some '\'') :
    string? ('\'' :: '\'' :: '\'' :: ((if text.contains '\n' then ['\n'] else []) ++
      (text ++ '\'' :: '\'' :: '\'' :: rest))) = some (text, rest) := by
  have read (fuel : Nat) (enough : text.length < fuel) :
      long? '\'' fuel (text ++ '\'' :: '\'' :: '\'' :: rest) = some (text, rest) :=
    long?_append open_ few after enough
  rw [string?]
  split_ifs with new
  · apply read
    simp only [List.length_append]
    omega
  · rw [List.nil_append, dropFirstLineEnd_append (by simpa using new) open_]
    apply read
    rw [List.length_append]
    omega

/-- A text that is written as it is on one line. -/
theorem open_of_literal (form : textForm (traits text) = .literal) :
    text ≠ [] ∧ ∀ c ∈ text, c ≠ '\'' ∧ isForbidden c = false := by
  rw [textForm] at form
  split_ifs at form with basic literal
  simp only [traits, Bool.and_eq_true, Bool.not_eq_true', beq_iff_eq] at basic literal
  obtain ⟨⟨clean, singles⟩, flat⟩ := literal
  constructor
  · rintro rfl
    exact basic (by decide)
  · intro c inside
    obtain printable | rfl := isForbidden_of_any clean inside
    · exact ⟨fun same => not_mem_of_longestRun singles (same ▸ inside), printable⟩
    · exact absurd ((List.contains_iff_mem.2 inside).symm.trans flat) (by decide)

/-- A text that is written as it is on several lines. -/
theorem open_of_longLiteral (form : textForm (traits text) = .longLiteral) :
    longestRun '\'' text 0 ≤ 2 ∧ ∀ c ∈ text, isForbidden c = false ∨ c = '\n' := by
  rw [textForm] at form
  split_ifs at form with basic literal longBasic longLiteral
  simp only [traits, Bool.and_eq_true, Bool.not_eq_true'] at longLiteral
  exact ⟨of_decide_eq_true longLiteral.2, fun c inside => isForbidden_of_any longLiteral.1 inside⟩

/-- A quoted text is read as the text, unless another quote comes right after it. -/
theorem string?_quote (s : String) (double : rest.head? ≠ some '"')
    (single : rest.head? ≠ some '\'') :
    string? ((quote s).toList ++ rest) = some (s.toList, rest) := by
  have start : (if (traits s.toList).newline then "\n" else "").toList =
      if s.toList.contains '\n' then ['\n'] else [] := by
    rw [traits]
    split_ifs <;> rfl
  cases form : textForm (traits s.toList) with
  | basic =>
    have read := string?_basic s.toList fun _ => double
    simpa [quote, form] using read
  | literal =>
    obtain ⟨present, open_⟩ := open_of_literal form
    have read := string?_literal present open_ rest
    simpa [quote, form] using read
  | longBasic =>
    have read := string?_longBasic s.toList double
    simpa [quote, form, start] using read
  | longLiteral =>
    obtain ⟨few, open_⟩ := open_of_longLiteral form
    have read := string?_longLiteral open_ few single
    simpa [quote, form, start] using read

end Toml

end ScriptHost
