import ScriptHost.Files.Tree

/-!
# Spellings of a path

Absolute paths with the same components lead to the same directory, and to the same file when they
go on alike: a separator more or a `.` does not count on the way.  Only the length of a spelling
makes a difference, since a name that is too long leads nowhere.  A path that goes on from that of a
directory leads to the directory's entries.
-/

namespace ScriptHost

/-! ## Parts of a path -/

/-- What is no separator is in one of the parts. -/
theorem mem_splitList {α : Type} [DecidableEq α] {separator a : α} (other : a ≠ separator)
    (l : List α) :
    a ∈ l ↔ ∃ part ∈ splitList separator l, a ∈ part := by
  induction l with
  | nil => simp [splitList]
  | cons first rest ih =>
    rw [splitList]
    split
    · next same =>
      subst same
      rw [List.mem_cons, ih]
      simp [other]
    · cases parts : splitList separator rest with
      | nil => exact absurd parts (splitList_ne_nil separator rest)
      | cons part others =>
        rw [parts] at ih
        rw [List.mem_cons, ih]
        simp [or_assoc]

namespace Path

/-- The parts of a path that count: repeated separators do not. -/
def parts (path : String) : List String := (splitText '/' path).filter (· ≠ "")

theorem parts_join (first rest : String) :
    parts (first ++ "/" ++ rest) = parts first ++ parts rest := by
  have split : splitText '/' (first ++ "/" ++ rest) = _ := splitText_append '/' first rest
  rw [parts, split, List.filter_append, parts, parts]

/-- An absolute path starts with a separator. -/
theorem isAbsolute_iff {path : String} :
    isAbsolute path = true ↔ ∃ rest, path = "/" ++ rest := by
  rw [isAbsolute, beq_iff_eq]
  constructor
  · intro first
    obtain ⟨rest, spelled⟩ := List.head?_eq_some_iff.1 first
    exact ⟨String.ofList rest, String.toList_injective (by simp [spelled])⟩
  · rintro ⟨rest, rfl⟩
    simp

theorem ne_empty_of_isAbsolute {path : String} (absolute : isAbsolute path = true) :
    path ≠ "" := by
  rintro rfl
  cases absolute

/-- The components of an absolute path are its parts without `.`. -/
theorem components_eq {path : String} (absolute : isAbsolute path = true) :
    components path = (parts path).filter (· ≠ ".") := by
  obtain ⟨rest, rfl⟩ := isAbsolute_iff.1 absolute
  have split : splitText '/' ("/" ++ rest) = "" :: splitText '/' rest := by
    have joined : splitText '/' ("" ++ "/" ++ rest) = _ := splitText_append '/' "" rest
    rwa [String.empty_append] at joined
  rw [components, parts, split, List.filter_filter]
  simp [Bool.and_comm]

theorem mem_parts {path : String} {part : List Char} {c : Char}
    (inside : part ∈ splitList '/' path.toList) (holds : c ∈ part) :
    String.ofList part ∈ parts path := by
  have notEmpty : String.ofList part ≠ "" := by
    intro empty
    rw [String.ofList_eq_empty_iff.1 empty] at holds
    exact absurd holds List.not_mem_nil
  exact List.mem_filter.2 ⟨List.mem_map.2 ⟨part, inside, rfl⟩, decide_eq_true notEmpty⟩

/-- What is neither a separator nor a dot is in one of the components. -/
theorem mem_toList_iff {path : String} (absolute : isAbsolute path = true) {c : Char}
    (noSeparator : c ≠ '/') (noDot : c ≠ '.') :
    c ∈ path.toList ↔ ∃ part ∈ components path, c ∈ part.toList := by
  rw [components_eq absolute, mem_splitList noSeparator]
  constructor
  · rintro ⟨part, inside, holds⟩
    refine ⟨String.ofList part, ?_, by simpa using holds⟩
    have notDot : String.ofList part ≠ "." := by
      intro same
      have letters : part = ['.'] := by simpa using congrArg String.toList same
      rw [letters] at holds
      exact noDot (List.mem_singleton.1 holds)
    exact List.mem_filter.2 ⟨mem_parts inside holds, decide_eq_true notDot⟩
  · rintro ⟨part, inside, holds⟩
    have among := (List.mem_filter.1 (List.mem_filter.1 inside).1).1
    obtain ⟨letters, here, rfl⟩ := List.mem_map.1 among
    exact ⟨letters, here, by simpa using holds⟩

end Path

/-! ## Names of entries -/

namespace Path

/-- Whether an entry of a directory may have a name. -/
def isName (name : String) : Bool :=
  name ≠ "" && name ≠ "." && name ≠ ".." && !name.toList.contains '/' &&
    !name.toList.contains '\x00' && name.utf8ByteSize ≤ Files.partLimit

variable {name : String}

theorem isName_iff :
    isName name = true ↔ name ≠ "" ∧ name ≠ "." ∧ name ≠ ".." ∧ '/' ∉ name.toList ∧
      '\x00' ∉ name.toList ∧ name.utf8ByteSize ≤ Files.partLimit := by
  simp [isName, and_assoc]

theorem isAbsolute_of_isName (named : isName name = true) : isAbsolute name = false := by
  obtain ⟨-, -, -, noSeparator, -⟩ := isName_iff.1 named
  rw [Bool.eq_false_iff, Ne, isAbsolute_iff]
  rintro ⟨rest, rfl⟩
  exact noSeparator (by simp)

theorem getLast?_ne_of_isName (named : isName name = true) : name.toList.getLast? ≠ some '/' :=
  fun last => (isName_iff.1 named).2.2.2.1 (List.mem_of_getLast? last)

/-- A name is one part of a path. -/
theorem parts_of_isName (named : isName name = true) : parts name = [name] := by
  obtain ⟨given, -, -, noSeparator, -⟩ := isName_iff.1 named
  rw [parts, splitText_of_not_mem noSeparator]
  exact List.filter_cons_of_pos (decide_eq_true given)

end Path

namespace Files

/-! ## Descending -/

section

variable {root : Node} {again : List Node → List String → Except FileError Node}

/-- Dots are passed over unless they stand last. -/
def PassesDots (lead : List Node → List String → Except FileError Node) : Prop :=
  ∀ stack parts last, last ≠ [] →
    lead stack (parts ++ last) = lead stack (parts.filter (· ≠ ".") ++ last)

theorem descend_dot (stack : List Node) {rest : List String} (more : rest ≠ []) :
    descend root true again stack ("." :: rest) = descend root true again stack rest := by
  obtain ⟨part, others, rfl⟩ := List.exists_cons_of_ne_nil more
  cases top : stack.head?.getD root with
  | directory entries => rw [descend, top]; simp
  | file content => simp [descend, top]
  | link target => simp [descend, top]

theorem PassesDots.after (passes : PassesDots again) (stack : List Node)
    (first parts : List String) {last : List String} (more : last ≠ []) :
    again stack (first ++ (parts ++ last)) =
      again stack (first ++ (parts.filter (· ≠ ".") ++ last)) := by
  rw [← List.append_assoc, passes _ _ _ more, ← List.append_assoc,
    passes _ (first ++ _) _ more, List.filter_append, List.filter_append, List.filter_filter]
  simp only [Bool.and_self]

/-- What a link leads to is handed on with the parts that are left, so one link follows another. -/
theorem descend_passesDots (passes : PassesDots again) :
    PassesDots (descend root true again) := by
  intro stack parts last more
  induction parts generalizing stack with
  | nil => rfl
  | cons part rest ih =>
    have beyond : rest ++ last ≠ [] := List.append_ne_nil_of_right_ne_nil rest more
    by_cases dot : part = "."
    · subst dot
      rw [List.cons_append, descend_dot stack beyond, ih]
      rfl
    · have linked := fun stack target => passes.after stack (partsOf target) rest more
      rw [List.filter_cons_of_pos (by simpa using dot), List.cons_append, List.cons_append,
        descend, descend]
      simp only [dot, if_false, ih, linked, Bool.not_true, Bool.and_false, Bool.false_eq_true]

theorem resolveFrom_passesDots (links : Nat) : PassesDots (resolveFrom root true links) := by
  induction links with
  | zero => exact fun _ _ _ _ => rfl
  | succ links ih => exact descend_passesDots ih

/-- A dot at the end asks for a directory. -/
def directoryOnly : Except FileError Node → Except FileError Node
  | .ok (.directory entries) => .ok (.directory entries)
  | .ok _ => .error .notDirectory
  | .error e => .error e

def AsksAtDot (lead : List Node → List String → Except FileError Node) : Prop :=
  ∀ stack parts, lead stack (parts ++ ["."]) = directoryOnly (lead stack parts)

theorem descend_asksAtDot (asks : AsksAtDot again) : AsksAtDot (descend root true again) := by
  intro stack parts
  induction parts generalizing stack with
  | nil =>
    rw [List.nil_append, descend, descend]
    cases top : stack.head?.getD root with
    | directory entries => simp [descend, top, directoryOnly]
    | file content => rfl
    | link target => rfl
  | cons part rest ih =>
    have linked (stack : List Node) (target : String) :
        again stack (partsOf target ++ (rest ++ ["."])) =
          directoryOnly (again stack (partsOf target ++ rest)) := by
      rw [← List.append_assoc, asks]
    rw [List.cons_append, descend, descend]
    simp only [ih, linked, Bool.not_true, Bool.and_false, Bool.false_eq_true, if_false]
    cases stack.head?.getD root with
    | directory entries =>
      simp only [apply_ite directoryOnly]
      cases List.lookup part entries with
      | none => rfl
      | some node => cases node <;> rfl
    | _ => rfl

theorem resolveFrom_asksAtDot (links : Nat) : AsksAtDot (resolveFrom root true links) := by
  induction links with
  | zero => exact fun _ _ => rfl
  | succ links ih => exact descend_asksAtDot ih

/-- A way that leads to a directory and goes on leads to the entry of that name. -/
def GoesOn (lead : List Node → List String → Except FileError Node) : Prop :=
  ∀ stack parts entries name node, lead stack parts = .ok (.directory entries) →
    Path.isName name = true → entries.lookup name = some node → (∀ target, node ≠ .link target) →
      lead stack (parts ++ [name]) = .ok node

theorem descend_goesOn (goes : GoesOn again) : GoesOn (descend root true again) := by
  intro stack parts entries name node found named entry solid
  obtain ⟨-, noDot, noDots, -, -, short⟩ := Path.isName_iff.1 named
  induction parts generalizing stack with
  | nil =>
    rw [descend] at found
    rw [List.nil_append, descend, Except.ok.inj found]
    dsimp only
    rw [if_neg noDot, if_neg noDots, if_neg (Nat.not_lt.2 short), entry]
    cases node with
    | link target => exact absurd rfl (solid target)
    | file content => rfl
    | directory inner => rfl
  | cons part rest ih =>
    rw [List.cons_append, descend]
    rw [descend] at found
    split at found
    · next top here =>
      split at found
      · next dot => rw [if_pos dot, ih _ found]
      · next other =>
        rw [if_neg other]
        split at found
        · next dots => rw [if_pos dots, ih _ found]
        · next others =>
          rw [if_neg others]
          split at found
          · cases found
          · next fits =>
            rw [if_neg fits]
            cases below : top.lookup part with
            | none =>
              rw [below] at found
              cases found
            | some next =>
              rw [below] at found
              cases next with
              | link target =>
                simp only [Bool.not_true, Bool.and_false, Bool.false_eq_true, if_false] at found ⊢
                rw [← List.append_assoc]
                exact goes _ _ _ _ _ found named entry solid
              | file content => exact ih _ found
              | directory inner => exact ih _ found
    · cases found

theorem resolveFrom_goesOn (links : Nat) : GoesOn (resolveFrom root true links) := by
  induction links with
  | zero => exact fun _ _ _ _ _ found => nomatch found
  | succ links ih => exact descend_goesOn ih

end

/-! ## Names without a flaw -/

theorem flaw?_eq_none_iff {path : String} :
    flaw? path = none ↔
      '\x00' ∉ path.toList ∧ path ≠ "" ∧ path.utf8ByteSize ≤ nameLimit := by
  simp only [flaw?, List.contains_iff_mem]
  split
  · next zero => simp [zero]
  · split
    · next empty => simp [empty]
    · next zero given => simp [zero, given]

theorem plain_of_entries {files : Files} {path : String} {entries : List (String × Node)}
    (found : files.entries? path = some entries) : flaw? path = none := by
  cases plain : flaw? path with
  | none => rfl
  | some flaw =>
    rw [entries?, resolve, plain] at found
    cases found

theorem plain_of_isFile {files : Files} {path : String} (found : files.isFile path = true) :
    flaw? path = none := by
  cases plain : flaw? path with
  | none => rfl
  | some flaw =>
    rw [isFile, resolve, plain] at found
    cases found

theorem filter_partsOf (path : String) :
    (partsOf path).filter (· ≠ ".") = (Path.parts path).filter (· ≠ ".") := by
  rw [partsOf, ← Path.parts]
  split
  · rw [List.filter_append]
    exact List.append_nil _
  · rfl

theorem partsOf_ne_nil {path : String} (given : path ≠ "") : partsOf path ≠ [] := by
  rw [partsOf, ← Path.parts]
  split
  · exact List.append_ne_nil_of_right_ne_nil _ (List.cons_ne_nil _ _)
  · next noSeparator =>
    obtain ⟨c, last⟩ : ∃ c, path.toList.getLast? = some c := by
      rw [← Option.isSome_iff_exists, List.getLast?_isSome]
      simpa using given
    have other : c ≠ '/' := by
      rintro rfl
      exact noSeparator last
    obtain ⟨part, inside, holds⟩ := (mem_splitList other _).1 (List.mem_of_getLast? last)
    exact List.ne_nil_of_mem (Path.mem_parts inside holds)

variable {files : Files} {a b rest : String}

/-- The directory that an absolute name leads to is told by its components. -/
theorem entries?_eq (absolute : Path.isAbsolute a = true) (plain : flaw? a = none) :
    files.entries? a =
      match resolveFrom files.root true (linkLimit + 1) [] (Path.components a ++ ["."]) with
      | .ok (.directory entries) => some entries
      | _ => none := by
  have same : resolveFrom files.root true (linkLimit + 1) [] (Path.components a ++ ["."]) =
      directoryOnly (resolveFrom files.root true (linkLimit + 1) [] (partsOf a)) := by
    rw [Path.components_eq absolute, ← filter_partsOf,
      ← resolveFrom_passesDots _ _ _ _ (List.cons_ne_nil _ _), resolveFrom_asksAtDot]
  rw [same, entries?, resolve, plain]
  dsimp only
  rw [if_pos absolute]
  cases resolveFrom files.root true (linkLimit + 1) [] (partsOf a) with
  | error e => rfl
  | ok node => cases node <;> rfl

end Files

namespace Path

/-- A directory with a separator after it. -/
def under (directory : String) : String :=
  if directory.toList.getLast? = some '/' then directory else directory ++ "/"

theorem under_eq (directory : String) :
    ∃ first, under directory = first ++ "/" ∧ parts first = parts directory := by
  rw [under]
  split
  · next last =>
    obtain ⟨first, spelled⟩ := List.getLast?_eq_some_iff.1 last
    have same : directory = String.ofList first ++ "/" :=
      String.toList_injective (by simp [spelled])
    refine ⟨String.ofList first, same, ?_⟩
    have joined := parts_join (String.ofList first) ""
    rw [String.append_empty, ← same] at joined
    rw [joined]
    exact (List.append_nil _).symm
  · exact ⟨directory, rfl, rfl⟩

theorem isAbsolute_append {path : String} (absolute : isAbsolute path = true) (rest : String) :
    isAbsolute (path ++ rest) = true := by
  obtain ⟨more, rfl⟩ := isAbsolute_iff.1 absolute
  exact isAbsolute_iff.2 ⟨more ++ rest, String.append_assoc⟩

theorem isAbsolute_under {directory : String} (absolute : isAbsolute directory = true) :
    isAbsolute (under directory) = true := by
  rw [under]
  split
  · exact absolute
  · exact isAbsolute_append absolute "/"

theorem mem_under {directory : String} {c : Char} (noSeparator : c ≠ '/') :
    c ∈ (under directory).toList ↔ c ∈ directory.toList := by
  rw [under]
  split
  · rfl
  · simp [noSeparator]

theorem utf8ByteSize_le_under (directory : String) :
    directory.utf8ByteSize ≤ (under directory).utf8ByteSize := by
  rw [under]
  split
  · exact Nat.le_refl _
  · rw [String.utf8ByteSize_append]
    exact Nat.le_add_right _ _

theorem join_of_isAbsolute {name : String} (absolute : isAbsolute name = true)
    (directory : String) : join directory name = name := by
  rw [join, absolute, Bool.true_or, if_pos rfl]

theorem join_eq {directory name : String} (given : directory ≠ "")
    (relative : isAbsolute name = false) : join directory name = under directory ++ name := by
  rw [join, relative, under]
  simp only [given, Bool.false_or, decide_false, Bool.false_eq_true, if_false]
  split <;> rfl

/-- A path that goes on from a directory along some names. -/
structure Extends (directory : String) (names : List String) (path : String) : Prop where
  given : path ≠ ""
  parts : parts path = parts directory ++ names
  absolute : isAbsolute path = isAbsolute directory
  noZero : '\x00' ∉ directory.toList → '\x00' ∉ path.toList

theorem Extends.refl {directory : String} (given : directory ≠ "") :
    Extends directory [] directory :=
  ⟨given, (List.append_nil _).symm, rfl, id⟩

theorem join_of_isName {path name : String} (given : path ≠ "") (named : isName name = true) :
    join path name = under path ++ name :=
  join_eq given (isAbsolute_of_isName named)

theorem Extends.join {directory path name : String} {names : List String}
    (onward : Extends directory names path) (named : isName name = true) :
    Extends directory (names ++ [name]) (join path name) := by
  obtain ⟨noEmpty, -, -, -, noZero, -⟩ := isName_iff.1 named
  obtain ⟨first, spelled, same⟩ := under_eq path
  have joined := join_of_isName onward.given named
  refine ⟨?_, ?_, ?_, fun plain inside => ?_⟩
  · rw [joined, spelled]
    simp
  · rw [joined, spelled, parts_join, same, onward.parts, parts_of_isName named, List.append_assoc]
  · obtain ⟨c, rest, letters⟩ := List.exists_cons_of_ne_nil
      (mt String.toList_eq_nil_iff.1 onward.given)
    rw [← onward.absolute, joined, under]
    split <;> simp [isAbsolute, letters]
  · rw [joined, String.toList_append, List.mem_append, mem_under (by decide)] at inside
    exact inside.elim (onward.noZero plain) noZero

theorem Extends.foldl_join {directory path : String} {before names : List String}
    (onward : Extends directory before path) (named : ∀ name ∈ names, isName name = true) :
    Extends directory (before ++ names) (names.foldl Path.join path) := by
  induction names generalizing before path with
  | nil => rwa [List.append_nil]
  | cons name rest ih =>
    obtain ⟨here, others⟩ := List.forall_mem_cons.1 named
    rw [List.foldl_cons, List.append_cons]
    exact ih (onward.join here) others

/-- A path that ends in a name asks for no directory. -/
theorem partsOf_join {path name : String} (given : path ≠ "") (named : isName name = true) :
    Files.partsOf (join path name) = parts (join path name) := by
  have last : (join path name).toList.getLast? ≠ some '/' := by
    have noEmpty := mt String.toList_eq_nil_iff.1 (isName_iff.1 named).1
    rw [join_of_isName given named, String.toList_append, List.getLast?_append,
      Option.or_of_isSome (List.getLast?_isSome.2 noEmpty)]
    exact getLast?_ne_of_isName named
  rw [Files.partsOf, if_neg last, parts]

theorem under_under (directory rest : String) :
    under (under directory ++ rest) =
      under directory ++ if rest = "" then "" else under rest := by
  obtain ⟨first, spelled, -⟩ := under_eq directory
  by_cases empty : rest = ""
  · subst empty
    rw [String.append_empty, if_pos rfl, String.append_empty, spelled, under, if_pos (by simp)]
  · have last : (under directory ++ rest).toList.getLast? = rest.toList.getLast? := by
      rw [String.toList_append, List.getLast?_append]
      exact Option.or_of_isSome (List.getLast?_isSome.2 (by simpa using empty))
    rw [if_neg empty, under.eq_1 (under directory ++ rest), last, under.eq_1 rest]
    split
    · rfl
    · rw [String.append_assoc]

/-- Names below two directories that go on alike. -/
def Alongside (a b first second : String) : Prop :=
  first = second ∨ ∃ rest, first = under a ++ rest ∧ second = under b ++ rest

section

variable {a b first second : String}

theorem alongside_join (given : a ≠ "") (given' : b ≠ "") (name : String) :
    Alongside a b (join a name) (join b name) := by
  cases relative : isAbsolute name with
  | true => exact .inl ((join_of_isAbsolute relative a).trans (join_of_isAbsolute relative b).symm)
  | false => exact .inr ⟨name, join_eq given relative, join_eq given' relative⟩

theorem Alongside.join (alongside : Alongside a b first second) (name : String) :
    Alongside a b (join first name) (join second name) := by
  rcases alongside with rfl | ⟨rest, rfl, rfl⟩
  · exact .inl rfl
  · have given (directory : String) : under directory ++ rest ≠ "" := by
      obtain ⟨start, spelled, -⟩ := under_eq directory
      rw [spelled]
      simp
    cases relative : isAbsolute name with
    | true =>
      exact .inl ((join_of_isAbsolute relative _).trans (join_of_isAbsolute relative _).symm)
    | false =>
      right
      refine ⟨(if rest = "" then "" else under rest) ++ name, ?_, ?_⟩
      · rw [join_eq (given a) relative, under_under, String.append_assoc]
      · rw [join_eq (given b) relative, under_under, String.append_assoc]

/-- What stands below two directories in the same place goes on alike. -/
theorem alongside_foldl_join (given : a ≠ "") (given' : b ≠ "") (directories : List String)
    (name : String) :
    Alongside a b (Path.join (directories.foldl Path.join a) name)
      (Path.join (directories.foldl Path.join b) name) := by
  have further (directories : List String) {first second : String}
      (alike : ∀ name, Alongside a b (Path.join first name) (Path.join second name)) :
      ∀ name, Alongside a b (Path.join (directories.foldl Path.join first) name)
        (Path.join (directories.foldl Path.join second) name) := by
    induction directories generalizing first second with
    | nil => exact alike
    | cons directory rest ih => exact ih fun name => (alike directory).join name
  exact further directories (alongside_join given given') name

end

end Path

namespace Files

variable {files : Files} {a b rest : String}

theorem partsOf_under (directory rest : String) :
    partsOf (Path.under directory ++ rest) = Path.parts directory ++ partsOf ("/" ++ rest) := by
  obtain ⟨first, spelled, same⟩ := Path.under_eq directory
  have whole := Path.parts_join first rest
  have ending := Path.parts_join "" rest
  rw [String.empty_append] at ending
  have last : (first ++ "/" ++ rest).toList.getLast? = ("/" ++ rest).toList.getLast? := by
    rw [String.append_assoc, String.toList_append, List.getLast?_append]
    exact Option.or_of_isSome (List.getLast?_isSome.2 (by simp))
  rw [spelled, partsOf, partsOf, ← Path.parts, ← Path.parts, last, whole, ending, same]
  split
  · rw [List.append_assoc, List.append_assoc]
    rfl
  · rfl

/-- What a name below an absolute directory leads to depends on the components of the directory. -/
theorem resolve_under (absolute : Path.isAbsolute a = true)
    (plain : flaw? (Path.under a ++ rest) = none) :
    files.resolve (Path.under a ++ rest) =
      resolveFrom files.root true (linkLimit + 1) []
        (Path.components a ++ partsOf ("/" ++ rest)) := by
  have below := Path.isAbsolute_append (Path.isAbsolute_under absolute) rest
  have more : partsOf ("/" ++ rest) ≠ [] := partsOf_ne_nil (by simp)
  rw [resolve, plain]
  dsimp only
  rw [if_pos below, partsOf_under, Path.components_eq absolute,
    resolveFrom_passesDots _ _ _ _ more]

theorem zero_mem_iff (absolute : Path.isAbsolute a = true) (same : Path.Same a b) :
    '\x00' ∈ a.toList ↔ '\x00' ∈ b.toList := by
  rw [Path.mem_toList_iff absolute (by decide) (by decide), same.2,
    ← Path.mem_toList_iff (same.1 ▸ absolute) (by decide) (by decide)]

/-- A name below another spelling of a directory has the same flaws, but for its length. -/
theorem flaw?_under (absolute : Path.isAbsolute a = true) (same : Path.Same a b)
    (plain : flaw? (Path.under b ++ rest) = none)
    (short : (Path.under a ++ rest).utf8ByteSize ≤ nameLimit) :
    flaw? (Path.under a ++ rest) = none := by
  have below := Path.isAbsolute_append (Path.isAbsolute_under absolute) rest
  obtain ⟨noZero, -, -⟩ := flaw?_eq_none_iff.1 plain
  refine flaw?_eq_none_iff.2 ⟨?_, Path.ne_empty_of_isAbsolute below, short⟩
  rw [String.toList_append, List.mem_append, Path.mem_under (by decide)] at noZero ⊢
  rwa [zero_mem_iff absolute same]

/-- A spelling that is not too long leads to the same directory as another one. -/
theorem entries?_of_same (absolute : Path.isAbsolute a = true) (same : Path.Same a b)
    (short : a.utf8ByteSize ≤ nameLimit) {entries : List (String × Node)}
    (found : files.entries? b = some entries) : files.entries? a = some entries := by
  have given := Path.ne_empty_of_isAbsolute absolute
  have plain := plain_of_entries found
  obtain ⟨noZero, -, -⟩ := flaw?_eq_none_iff.1 plain
  have plain' : flaw? a = none :=
    flaw?_eq_none_iff.2 ⟨mt (zero_mem_iff absolute same).1 noZero, given, short⟩
  rw [entries?_eq (same.1 ▸ absolute) plain] at found
  rw [entries?_eq absolute plain', same.2]
  exact found

/-- A spelling that is not too long leads to the same file as another one. -/
theorem isFile_of_same (absolute : Path.isAbsolute a = true) (same : Path.Same a b)
    {first second : String} (alongside : Path.Alongside a b first second)
    (short : first.utf8ByteSize ≤ nameLimit) (found : files.isFile second = true) :
    files.isFile first = true := by
  rcases alongside with rfl | ⟨rest, rfl, rfl⟩
  · exact found
  · have plain := plain_of_isFile found
    have plain' := flaw?_under absolute same plain short
    rw [isFile, resolve_under (same.1 ▸ absolute) plain] at found
    rw [isFile, resolve_under absolute plain', same.2]
    exact found

end Files

end ScriptHost
