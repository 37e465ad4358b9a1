import ScriptHost.Proofs.ModulePrograms

/-!
# Modules given by their texts

A list of texts makes a set of modules: each text is a file of its own in one directory, and it is
read as the plainest body of a module.  What a text is read as is a computation on its bytes.
-/

namespace ScriptHost

/-! ## Reading -/

theorem toList_toByteArray (text : List Char) :
    (String.ofList text).toByteArray.toList = text.flatMap String.utf8EncodeChar := by
  rw [← String.utf8Encode_toList, String.toList_ofList, List.utf8Encode, toList_eq_data_toList,
    List.toList_data_toByteArray]

/-- The tokens of bytes in a list. -/
def Token.ofList (bytes : List UInt8) : List Token := scan (bytes.length + 1) bytes 1

theorem Token.ofBytes_eq_ofList (bytes : ByteArray) : ofBytes bytes = ofList bytes.toList := by
  have size : bytes.size = bytes.toList.length := by
    rw [toList_eq_data_toList, Array.length_toList]
    rfl
  rw [ofBytes, ofList, size]

/-- Whether bytes are read as the plainest body that requires names. -/
def Routine.isReadFrom (bytes : List UInt8) (names : List String) (level : Nat) : Bool :=
  match ofTokens (Token.ofList bytes) ["_ENV"] level with
  | .ok routine => routine.isModule names
  | .error _ => false

theorem Routine.exists_of_isReadFrom {text : List Char} {names : List String} {level : Nat}
    (read : isReadFrom (text.flatMap String.utf8EncodeChar) names level = true) :
    ∃ routine : Routine, ofBytes (String.ofList text).toByteArray ["_ENV"] level = .ok routine ∧
      routine.isModule names = true := by
  unfold isReadFrom at read
  split at read
  · next routine found =>
    refine ⟨routine, ?_, read⟩
    rw [ofBytes, Token.ofBytes_eq_ofList, toList_toByteArray, found]
  · cases read

/-! ## Files -/

namespace Files

/-- A name of a file that leads to it from its directory. -/
def Plain (name : String) : Prop :=
  flaw? ("/" ++ name) = none ∧ Path.isAbsolute ("/" ++ name) = true ∧
    partsOf ("/" ++ name) = [name] ∧ name ≠ "." ∧ name ≠ ".." ∧ name.utf8ByteSize ≤ partLimit

instance (name : String) : Decidable (Plain name) := inferInstanceAs (Decidable (_ ∧ _))

theorem readText_of_plain {entries : List (String × Node)} {name source : String}
    (plain : Plain name) (found : entries.lookup name = some (.file source.toByteArray)) :
    ({ root := .directory entries } : Files).readText ("/" ++ name) = .ok source := by
  obtain ⟨flawless, absolute, parts, here, above, short⟩ := plain
  have resolved : ({ root := .directory entries } : Files).resolve ("/" ++ name) =
      .ok (.file source.toByteArray) := by
    rw [resolve, flawless]
    dsimp only
    rw [if_pos absolute, parts, resolveFrom, descend, List.head?_nil, Option.getD_none]
    dsimp only
    rw [if_neg here, if_neg above, if_neg (Nat.not_lt_of_le short), found]
    rfl
  rw [readText, readBytes, resolved]
  dsimp only
  rw [Utf8.decode?_toByteArray]

end Files

/-! ## Sets of texts -/

/-- A text as the body of a module. -/
structure ModuleText where
  name : String
  needed : List String
  text : List Char

namespace ModuleText

def file (t : ModuleText) : String := t.name ++ ".lua"

def path (t : ModuleText) : String := "/" ++ t.file

def source (t : ModuleText) : String := String.ofList t.text

/-- The plainest text that requires names. -/
def plain (name : String) (needed : List String) (result : String := "1") : ModuleText where
  name
  needed
  text := needed.flatMap (fun n => "require('".toList ++ n.toList ++ "')\n".toList) ++
    "return ".toList ++ result.toList

/-- A text that returns a constant in parentheses. -/
def parenthesized (name : String) (depth : Nat) : ModuleText where
  name
  needed := []
  text := "return ".toList ++ List.replicate depth '(' ++ '1' :: List.replicate depth ')'

/-- The first of some texts with a name. -/
def named (texts : List ModuleText) (n : String) : Option ModuleText :=
  texts.find? fun t => n == t.name

theorem mem_of_named {texts : List ModuleText} {n : String} {t : ModuleText}
    (found : named texts n = some t) : t ∈ texts ∧ t.name = n := by
  refine ⟨List.mem_of_find?_eq_some found, ?_⟩
  have same := List.find?_some found
  exact (beq_iff_eq.1 same).symm

def graph (texts : List ModuleText) : ModuleGraph := fun n => (named texts n).map (·.needed)

def index (texts : List ModuleText) : ModuleIndex where
  modules := texts.map fun t => (t.name, .script t.path)

def files (texts : List ModuleText) : Files where
  root := .directory (texts.map fun t => (t.file, .file t.source.toByteArray))

theorem get?_index (texts : List ModuleText) (n : String) :
    (index texts).get? n = (named texts n).map fun t => .script t.path := by
  unfold ModuleIndex.get? index named
  induction texts with
  | nil => rfl
  | cons t texts ih =>
    rw [List.map_cons, List.lookup_cons, List.find?_cons]
    cases n == t.name with
    | true => rfl
    | false => exact ih

theorem lookup_entries {texts : List ModuleText} (distinct : (texts.map file).Nodup)
    {t : ModuleText} (inside : t ∈ texts) :
    (texts.map fun t => (t.file, Node.file t.source.toByteArray)).lookup t.file =
      some (.file t.source.toByteArray) := by
  induction texts with
  | nil => cases inside
  | cons first texts ih =>
    rw [List.map_cons, List.nodup_cons] at distinct
    rw [List.map_cons, List.lookup_cons]
    rcases List.mem_cons.1 inside with rfl | inside
    · simp
    · have other : ¬ t.file = first.file := fun same =>
        distinct.1 (same ▸ List.mem_map_of_mem inside)
      rw [beq_eq_false_iff_ne.2 other]
      exact ih distinct.2 inside

/-- Texts in files of their own, each of which can be read inside fewer calls than a limit. -/
structure Readable (limit : Nat) (texts : List ModuleText) : Prop where
  distinct : (texts.map file).Nodup
  plain : ∀ t ∈ texts, Files.Plain t.file
  read : ∀ t ∈ texts, ∀ level < limit,
    Routine.isReadFrom (t.text.flatMap String.utf8EncodeChar) t.needed level = true

section

variable {texts : List ModuleText} {limit : Nat} (readable : Readable limit texts) {n : String}
  {t : ModuleText} (found : named texts n = some t)

include found

theorem get?_of_named : (index texts).get? n = some (.script t.path) := by
  rw [get?_index, found]
  rfl

include readable

theorem readText_of_named : (files texts).readText t.path = .ok t.source := by
  obtain ⟨inside, rfl⟩ := mem_of_named found
  exact Files.readText_of_plain (readable.plain t inside) (lookup_entries readable.distinct inside)

end

/-- The set of modules that texts make. -/
def modules {texts : List ModuleText} {limit : Nat} (readable : Readable limit texts)
    (resolver : Nat) (cache : TableId) (function : FunctionId) :
    ModuleSet (.plain resolver cache function) limit where
  graph := graph texts
  index := index texts
  files := files texts
  script n needed found := by
    obtain ⟨t, named, rfl⟩ := Option.map_eq_some_iff.1 found
    refine ⟨t.path, t.source, get?_of_named named, readText_of_named readable named, ?_⟩
    intro level below
    obtain ⟨routine, read, module⟩ :=
      Routine.exists_of_isReadFrom (readable.read t (mem_of_named named).1 level below)
    exact ⟨routine, read, Routine.slots_le_of_isModule module,
      Routine.requires_of_isModule module resolver cache function _ _⟩
  nowhere n absent := by
    rw [get?_index, Option.map_eq_none_iff.1 absent]
    rfl

/-- Few texts make a set whose chains are short. -/
theorem fits {texts : List ModuleText} {limit : Nat} (readable : Readable limit texts)
    (resolver : Nat) (cache : TableId) (function : FunctionId) (enough : texts.length ≤ limit)
    (small : limit < ScriptM.nestingLimit) : (modules readable resolver cache function).Fits where
  limit_lt := small
  bounded chain_ chain := by
    have only (n : String) (found : graph texts n ≠ none) : n ∈ texts.map (·.name) := by
      obtain ⟨needed, found⟩ := Option.ne_none_iff_exists'.1 found
      obtain ⟨t, named, rfl⟩ := Option.map_eq_some_iff.1 found
      obtain ⟨inside, rfl⟩ := mem_of_named named
      exact List.mem_map_of_mem inside
    have short := chain.length_le only
    rw [List.length_map] at short
    exact Nat.le_trans short enough

end ModuleText

end ScriptHost
