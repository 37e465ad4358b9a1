import ScriptHost.Proofs.PathSpellings

/-!
# Walks through file trees

A walk below a root meets all entries but the real directories, which it goes into.  It meets them
in ascending order of their places: names are compared byte by byte, a directory stands where its
name does, and what is inside it comes before what stands after it.  The path of a file that a walk
meets leads to the file unless it is too long.
-/

namespace ScriptHost

/-- Where an entry stands below a root: the directories that lead to it, and its name. -/
structure FilePlace where
  directories : List String
  name : String
deriving DecidableEq

namespace FilePlace

/-- The path of a place below a root. -/
def path (root : String) (place : FilePlace) : String :=
  Path.join (place.directories.foldl Path.join root) place.name

/-- All names from the root to the entry. -/
def names (place : FilePlace) : List String := place.directories ++ [place.name]

/-- The bytes of a name, by which it is compared. -/
def bytes (name : String) : List UInt8 := name.toByteArray.data.toList

/-- A place comes before another one where the first names that differ do. -/
def Before (a b : FilePlace) : Prop := a.names.map bytes < b.names.map bytes

instance (a b : FilePlace) : Decidable (a.Before b) := inferInstanceAs (Decidable (_ < _))

theorem before_asymm {a b : FilePlace} (first : a.Before b) : ¬ b.Before a := List.lt_asymm first

theorem before_of_names {a b : FilePlace} {above below below' : List String} {name name' : String}
    (first : a.names = above ++ name :: below) (second : b.names = above ++ name' :: below')
    (ascending : bytes name < bytes name') : a.Before b := by
  rw [Before, first, second, List.map_append, List.map_append, List.map_cons, List.map_cons]
  exact List.append_left_lt (List.cons_lt_cons_iff.2 (.inl ascending))

end FilePlace

namespace Node

/-- An entry that is reached through real directories only and is none itself. -/
inductive Leaf : List (String × Node) → List String → String → Node → Prop where
  | here {entries : List (String × Node)} {name : String} {node : Node}
      (inside : (name, node) ∈ entries) (solid : node.isDirectory = false) :
      Leaf entries [] name node
  | deeper {entries inner : List (String × Node)} {directory : String} {directories : List String}
      {name : String} {node : Node} (inside : (directory, .directory inner) ∈ entries)
      (leaf : Leaf inner directories name node) :
      Leaf entries (directory :: directories) name node

mutual

/-- The entries that a walk below some directories meets, in its order. -/
def leaves (above : List String) : List (String × Node) → List (FilePlace × Node)
  | [] => []
  | (name, node) :: rest => leavesAt above name node ++ leaves above rest

def leavesAt (above : List String) (name : String) : Node → List (FilePlace × Node)
  | .directory entries => leaves (above ++ [name]) entries
  | node => [(⟨above, name⟩, node)]

end

mutual

/--
Whether the directories of a tree list their entries in ascending order of the names, and whether
these are names that entries may have.
-/
def isSound : Node → Bool
  | .directory entries => areSound entries
  | _ => true

def areSound : List (String × Node) → Bool
  | [] => true
  | (name, node) :: rest =>
    Path.isName name && rest.all (fun (other, _) => FilePlace.bytes name < FilePlace.bytes other) &&
      node.isSound && areSound rest

end

/-! ## What a walk meets -/

section

variable {entries rest : List (String × Node)} {entry : String × Node} {name last : String}
  {node leafNode : Node} {directories : List String}

theorem leaf_cons :
    Leaf (entry :: rest) directories last leafNode ↔
      Leaf [entry] directories last leafNode ∨ Leaf rest directories last leafNode := by
  constructor
  · intro leaf
    cases leaf with
    | here inside solid =>
      rcases List.mem_cons.1 inside with rfl | inside
      · exact .inl (.here List.mem_cons_self solid)
      · exact .inr (.here inside solid)
    | deeper inside leaf =>
      rcases List.mem_cons.1 inside with rfl | inside
      · exact .inl (.deeper List.mem_cons_self leaf)
      · exact .inr (.deeper inside leaf)
  · rintro (leaf | leaf)
    · cases leaf with
      | here inside solid =>
        obtain rfl := List.mem_singleton.1 inside
        exact .here List.mem_cons_self solid
      | deeper inside leaf =>
        obtain rfl := List.mem_singleton.1 inside
        exact .deeper List.mem_cons_self leaf
    · cases leaf with
      | here inside solid => exact .here (.tail _ inside) solid
      | deeper inside leaf => exact .deeper (.tail _ inside) leaf

theorem leaf_directory :
    Leaf [(name, .directory entries)] directories last leafNode ↔
      ∃ below, directories = name :: below ∧ Leaf entries below last leafNode := by
  constructor
  · intro leaf
    cases leaf with
    | here inside solid =>
      cases List.mem_singleton.1 inside
      cases solid
    | deeper inside leaf =>
      cases List.mem_singleton.1 inside
      exact ⟨_, rfl, leaf⟩
  · rintro ⟨below, rfl, leaf⟩
    exact .deeper List.mem_cons_self leaf

theorem leaf_solid (solid : node.isDirectory = false) :
    Leaf [(name, node)] directories last leafNode ↔
      directories = [] ∧ last = name ∧ leafNode = node := by
  constructor
  · intro leaf
    cases leaf with
    | here inside _ =>
      cases List.mem_singleton.1 inside
      exact ⟨rfl, rfl, rfl⟩
    | deeper inside leaf =>
      cases List.mem_singleton.1 inside
      cases solid
  · rintro ⟨rfl, rfl, rfl⟩
    exact .here List.mem_cons_self solid

theorem Leaf.solid (leaf : Leaf entries directories last leafNode) :
    leafNode.isDirectory = false := by
  induction leaf with
  | here _ solid => exact solid
  | deeper _ _ ih => exact ih

/-- The names of a leaf start with that of an entry. -/
theorem Leaf.names (leaf : Leaf entries directories last leafNode) :
    ∃ entry ∈ entries, ∃ below, directories ++ [last] = entry.1 :: below := by
  cases leaf with
  | here inside _ => exact ⟨_, inside, [], rfl⟩
  | deeper inside _ => exact ⟨_, inside, _, rfl⟩

end

theorem mem_leavesAt_solid {above : List String} {name : String} {node leafNode : Node}
    {place : FilePlace} (solid : node.isDirectory = false) :
    (place, leafNode) ∈ leavesAt above name node ↔
      ∃ below, place.directories = above ++ below ∧
        Leaf [(name, node)] below place.name leafNode := by
  have single : leavesAt above name node = [(⟨above, name⟩, node)] := by
    cases node with
    | directory _ => cases solid
    | file _ => rfl
    | link _ => rfl
  obtain ⟨directories, last⟩ := place
  simp only [single, List.mem_singleton, leaf_solid solid, Prod.mk.injEq, FilePlace.mk.injEq]
  constructor
  · rintro ⟨⟨rfl, rfl⟩, rfl⟩
    exact ⟨[], (List.append_nil _).symm, rfl, rfl, rfl⟩
  · rintro ⟨_, rfl, rfl, rfl, rfl⟩
    exact ⟨⟨List.append_nil _, rfl⟩, rfl⟩

mutual

/-- A walk meets the leaves. -/
theorem mem_leaves {place : FilePlace} {leafNode : Node} (above : List String) :
    ∀ entries : List (String × Node), (place, leafNode) ∈ leaves above entries ↔
      ∃ below, place.directories = above ++ below ∧ Leaf entries below place.name leafNode
  | [] => by
    rw [leaves]
    refine ⟨fun inside => absurd inside List.not_mem_nil, ?_⟩
    rintro ⟨below, -, leaf⟩
    obtain ⟨entry, inside, -⟩ := leaf.names
    cases inside
  | (name, node) :: rest => by
    rw [leaves, List.mem_append, mem_leavesAt above name node, mem_leaves above rest,
      ← exists_or]
    refine exists_congr fun below => ?_
    rw [← and_or_left, ← leaf_cons]

theorem mem_leavesAt {place : FilePlace} {leafNode : Node} (above : List String) (name : String) :
    ∀ node : Node, (place, leafNode) ∈ leavesAt above name node ↔
      ∃ below, place.directories = above ++ below ∧ Leaf [(name, node)] below place.name leafNode
  | .directory entries => by
    rw [leavesAt, mem_leaves (above ++ [name]) entries]
    simp only [leaf_directory, List.append_assoc, List.singleton_append]
    constructor
    · rintro ⟨below, same, leaf⟩
      exact ⟨name :: below, same, below, rfl, leaf⟩
    · rintro ⟨_, same, below, rfl, leaf⟩
      exact ⟨below, same, leaf⟩
  | .file content => mem_leavesAt_solid rfl
  | .link target => mem_leavesAt_solid rfl

end

/-! ## The order of a walk -/

theorem areSound_cons {name : String} {node : Node} {rest : List (String × Node)} :
    areSound ((name, node) :: rest) = true ↔
      Path.isName name = true ∧ (∀ other ∈ rest, FilePlace.bytes name < FilePlace.bytes other.1) ∧
        node.isSound = true ∧ areSound rest = true := by
  simp [areSound, and_assoc]

/-- The names of what a walk meets below some directories go on with that of an entry. -/
theorem names_of_mem_leaves {above : List String} {entries : List (String × Node)}
    {met : FilePlace × Node} (inside : met ∈ leaves above entries) :
    ∃ entry ∈ entries, ∃ below, met.1.names = above ++ entry.1 :: below := by
  obtain ⟨below, same, leaf⟩ := (mem_leaves above entries).1 inside
  obtain ⟨entry, inside, further, names⟩ := leaf.names
  refine ⟨entry, inside, further, ?_⟩
  rw [FilePlace.names, same, List.append_assoc, names]

theorem names_of_mem_leavesAt {above : List String} {name : String} {node : Node}
    {met : FilePlace × Node} (inside : met ∈ leavesAt above name node) :
    ∃ below, met.1.names = above ++ name :: below := by
  obtain ⟨below, same, leaf⟩ := (mem_leavesAt above name node).1 inside
  obtain ⟨entry, inside, further, names⟩ := leaf.names
  obtain rfl := List.mem_singleton.1 inside
  refine ⟨further, ?_⟩
  rw [FilePlace.names, same, List.append_assoc, names]

mutual

/-- A walk through a sound tree meets its leaves in ascending order. -/
theorem leaves_ascending (above : List String) :
    ∀ entries : List (String × Node), areSound entries = true →
      (leaves above entries).Pairwise fun a b => a.1.Before b.1
  | [], _ => .nil
  | (name, node) :: rest, sound => by
    obtain ⟨-, first, inner, others⟩ := areSound_cons.1 sound
    rw [leaves]
    refine List.pairwise_append.2 ⟨leavesAt_ascending above name node inner,
      leaves_ascending above rest others, fun a here b there => ?_⟩
    obtain ⟨below, names⟩ := names_of_mem_leavesAt here
    obtain ⟨entry, inside, below', names'⟩ := names_of_mem_leaves there
    exact FilePlace.before_of_names names names' (first entry inside)

theorem leavesAt_ascending (above : List String) (name : String) :
    ∀ node : Node, node.isSound = true →
      (leavesAt above name node).Pairwise fun a b => a.1.Before b.1
  | .directory entries, sound => leaves_ascending (above ++ [name]) entries sound
  | .file _, _ => List.pairwise_singleton _ _
  | .link _, _ => List.pairwise_singleton _ _

end

theorem isSound_of_mem {entries : List (String × Node)} (sound : areSound entries = true)
    {name : String} {node : Node} (inside : (name, node) ∈ entries) : node.isSound = true := by
  induction entries with
  | nil => cases inside
  | cons entry rest ih =>
    obtain ⟨-, -, here, others⟩ := areSound_cons.1 sound
    rcases List.mem_cons.1 inside with rfl | inside
    · exact here
    · exact ih others inside

theorem isName_of_mem {entries : List (String × Node)} (sound : areSound entries = true)
    {name : String} {node : Node} (inside : (name, node) ∈ entries) :
    Path.isName name = true := by
  induction entries with
  | nil => cases inside
  | cons entry rest ih =>
    obtain ⟨named, -, -, others⟩ := areSound_cons.1 sound
    rcases List.mem_cons.1 inside with rfl | inside
    · exact named
    · exact ih others inside

/-- No two entries of a directory have one name. -/
theorem lookup_of_mem {entries : List (String × Node)} (sound : areSound entries = true)
    {name : String} {node : Node} (inside : (name, node) ∈ entries) :
    entries.lookup name = some node := by
  induction entries with
  | nil => cases inside
  | cons entry rest ih =>
    obtain ⟨-, first, -, others⟩ := areSound_cons.1 sound
    rcases List.mem_cons.1 inside with rfl | inside
    · exact List.lookup_cons_self
    · have other : (name == entry.1) = false := by
        refine beq_eq_false_iff_ne.2 fun same => ?_
        subst same
        exact List.lt_irrefl _ (first (entry.1, node) inside)
      rw [List.lookup_cons, other]
      exact ih others inside

section

variable {entries : List (String × Node)} {directories : List String} {last : String} {node : Node}

/-- The way to a leaf is made of names. -/
theorem Leaf.isName (sound : areSound entries = true)
    (leaf : Leaf entries directories last node) :
    ∀ name ∈ directories ++ [last], Path.isName name = true := by
  induction leaf with
  | here inside _ => exact List.forall_mem_singleton.2 (isName_of_mem sound inside)
  | deeper inside _ ih =>
    exact List.forall_mem_cons.2 ⟨isName_of_mem sound inside, ih (isSound_of_mem sound inside)⟩

/-- A way that leads to the entries of a directory goes on to the leaves below them. -/
theorem Leaf.goesOn {lead : List Node → List String → Except FileError Node}
    (goes : Files.GoesOn lead) (sound : areSound entries = true)
    (leaf : Leaf entries directories last node) (noLink : ∀ target, node ≠ .link target)
    {stack : List Node} {parts : List String}
    (found : lead stack parts = .ok (.directory entries)) :
    lead stack (parts ++ (directories ++ [last])) = .ok node := by
  induction leaf generalizing parts with
  | here inside _ =>
    exact goes _ _ _ _ _ found (isName_of_mem sound inside) (lookup_of_mem sound inside) noLink
  | @deeper _ inner directory _ _ _ inside _ ih =>
    have next : lead stack (parts ++ [directory]) = .ok (.directory inner) :=
      goes _ _ _ _ _ found (isName_of_mem sound inside) (lookup_of_mem sound inside)
        fun _ same => nomatch same
    rw [List.cons_append, List.append_cons]
    exact ih (isSound_of_mem sound inside) noLink next

end

end Node

/-! ## Sound file systems -/

theorem mem_of_lookup {α : Type} {name : String} {a : α} {pairs : List (String × α)}
    (found : pairs.lookup name = some a) : (name, a) ∈ pairs := by
  obtain ⟨before, after, rfl, -⟩ := List.lookup_eq_some_iff.1 found
  exact List.mem_append_right _ List.mem_cons_self

namespace Files

section

variable {root : Node} {followLast : Bool} (sound : root.isSound = true)

include sound

theorem top_sound {stack : List Node} (above : ∀ node ∈ stack, node.isSound = true) :
    (stack.head?.getD root).isSound = true := by
  cases stack with
  | nil => exact sound
  | cons first rest => exact above first List.mem_cons_self

theorem descend_sound {again : List Node → List String → Except FileError Node}
    (onward : ∀ stack parts node, (∀ above ∈ stack, Node.isSound above = true) →
      again stack parts = .ok node → node.isSound = true)
    {parts : List String} {stack : List Node} {node : Node}
    (above : ∀ node ∈ stack, node.isSound = true)
    (found : descend root followLast again stack parts = .ok node) : node.isSound = true := by
  have top := top_sound sound above
  induction parts generalizing stack with
  | nil =>
    rw [descend] at found
    cases found
    exact top
  | cons part rest ih =>
    rw [descend] at found
    split at found
    · next entries here =>
      rw [here] at top
      split at found
      · exact ih above found (top_sound sound above)
      · split at found
        · have outer : ∀ node ∈ stack.tail, node.isSound = true :=
            fun node inside => above node (List.mem_of_mem_tail inside)
          exact ih outer found (top_sound sound outer)
        · split at found
          · cases found
          · split at found
            · cases found
            · split at found
              · cases found
                rfl
              · refine onward _ _ _ (fun node inside => ?_) found
                split at inside
                · cases inside
                · exact above node inside
            · next inner _ entry =>
              have below : ∀ node ∈ inner :: stack, node.isSound = true :=
                List.forall_mem_cons.2
                  ⟨Node.isSound_of_mem top (mem_of_lookup entry), above⟩
              exact ih below found (top_sound sound below)
    · cases found

theorem resolveFrom_sound {links : Nat} {stack : List Node} {parts : List String} {node : Node}
    (above : ∀ node ∈ stack, node.isSound = true)
    (found : resolveFrom root followLast links stack parts = .ok node) :
    node.isSound = true := by
  induction links generalizing stack parts node with
  | zero => cases found
  | succ links ih =>
    exact descend_sound sound (fun _ _ _ above found => ih above found) above found

end

/-- The directory of any name in a sound tree lists its entries in ascending order. -/
theorem entries_sound {files : Files} (sound : files.root.isSound = true) {path : String}
    {entries : List (String × Node)} (found : files.entries? path = some entries) :
    Node.areSound entries = true := by
  unfold entries? at found
  split at found
  · next inner resolved =>
    cases found
    unfold resolve at resolved
    split at resolved
    · cases resolved
    · exact resolveFrom_sound sound (fun node inside => absurd inside List.not_mem_nil) resolved
  · cases found

/-- The parts of the directory that a path starts from. -/
def start (files : Files) (path : String) : List String :=
  if Path.isAbsolute path then [] else partsOf files.cwd

theorem resolve_of_plain (files : Files) {path : String} (plain : flaw? path = none) :
    files.resolve path = resolveFrom files.root true (linkLimit + 1) []
      (files.start path ++ partsOf path) := by
  rw [resolve, plain, start]
  dsimp only
  split <;> rfl

/-- A directory is found with or without a separator at the end of its path. -/
theorem resolveFrom_of_entries {files : Files} {path : String} {entries : List (String × Node)}
    (found : files.entries? path = some entries) :
    resolveFrom files.root true (linkLimit + 1) [] (files.start path ++ Path.parts path) =
      .ok (.directory entries) := by
  have plain := plain_of_entries found
  unfold entries? at found
  split at found
  · next inner resolved =>
    cases found
    rw [resolve_of_plain files plain, partsOf, ← Path.parts] at resolved
    split at resolved
    · rw [← List.append_assoc, resolveFrom_asksAtDot] at resolved
      unfold directoryOnly at resolved
      split at resolved
      · next found => rw [found, Except.ok.inj resolved]
      · cases resolved
      · cases resolved
    · exact resolved
  · cases found

/-- A file below a directory is found by its path, unless that is too long. -/
theorem isFile_of_leaf {files : Files} (sound : files.root.isSound = true) {root : String}
    {entries : List (String × Node)} (readable : files.entries? root = some entries)
    {place : FilePlace} {content : ByteArray}
    (leaf : Node.Leaf entries place.directories place.name (.file content))
    (short : (place.path root).utf8ByteSize ≤ nameLimit) :
    files.isFile (place.path root) = true := by
  obtain ⟨noZero, given, -⟩ := flaw?_eq_none_iff.1 (plain_of_entries readable)
  have below := entries_sound sound readable
  have named := leaf.isName below
  have last : Path.isName place.name = true := named _ (List.mem_append_right _ List.mem_cons_self)
  have directory := (Path.Extends.refl given).foldl_join fun name inside =>
    named name (List.mem_append_left _ inside)
  have onward := directory.join last
  rw [List.nil_append] at onward
  have plain' : flaw? (place.path root) = none :=
    flaw?_eq_none_iff.2 ⟨onward.noZero noZero, onward.given, short⟩
  have way : files.start (place.path root) ++ partsOf (place.path root) =
      files.start root ++ Path.parts root ++ (place.directories ++ [place.name]) := by
    rw [FilePlace.path, Path.partsOf_join directory.given last, onward.parts, start,
      onward.absolute, ← start, List.append_assoc]
  have reached := leaf.goesOn (resolveFrom_goesOn (linkLimit + 1)) below
    (fun _ same => nomatch same) (resolveFrom_of_entries readable)
  rw [isFile, resolve_of_plain files plain', way, reached]

end Files

end ScriptHost
