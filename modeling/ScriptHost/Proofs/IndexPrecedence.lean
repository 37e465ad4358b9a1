import ScriptHost.Module.Index
import ScriptHost.Proofs.FileWalks

/-!
# Which file a module name leads to

Several files may have the same module name, below one root or below several.  The first root with
such a file counts.  Below it, the plain file that a walk meets first is taken, and without a plain
file the `init` file that it meets first, wherever that stands.  Files whose paths are too long to be looked
up do not count.
-/

namespace ScriptHost

/-! ## Pairs -/

theorem lookup_pair_cons {α : Type} (key : String) (a : α) (rest : List (String × α))
    (other : String) :
    ((key, a) :: rest).lookup other = if other = key then some a else rest.lookup other := by
  rw [List.lookup_cons]
  by_cases same : other = key
  · simp [same]
  · rw [beq_eq_false_iff_ne.2 same, if_neg same]

theorem lookup_setPair {α : Type} (key : String) (a : α) (pairs : List (String × α))
    (other : String) :
    (setPair key a pairs).lookup other = if other = key then some a else pairs.lookup other := by
  induction pairs with
  | nil => exact lookup_pair_cons key a [] other
  | cons pair rest ih =>
    obtain ⟨first, old⟩ := pair
    rw [setPair]
    split
    · next same =>
      subst same
      rw [lookup_pair_cons, lookup_pair_cons]
      by_cases here : other = first <;> simp [here]
    · next different =>
      rw [lookup_pair_cons, lookup_pair_cons, ih]
      by_cases here : other = first
      · subst here
        simp [different]
      · simp [here]

/-! ## Candidates for one name -/

namespace Candidate

/-- What is left of a candidate for a name and of a later one. -/
def preferred (old : Option Candidate) (new : Candidate) : Option Candidate :=
  match old with
  | none => some new
  | some old => if old.isInit && !new.isInit then some new else some old

theorem foldl_preferred_some (old : Candidate) (later : List Candidate) :
    later.foldl preferred (some old) =
      if old.isInit then (later.find? (!·.isInit)).or (some old) else some old := by
  induction later generalizing old with
  | nil => simp
  | cons new later ih =>
    rw [List.foldl_cons, preferred]
    cases kind : old.isInit <;> cases newKind : new.isInit <;> simp [kind, newKind, ih]

/-- Of many candidates the first plain one is left, and the first of all if none is plain. -/
theorem foldl_preferred (candidates : List Candidate) :
    candidates.foldl preferred none = (candidates.find? (!·.isInit)).or candidates.head? := by
  cases candidates with
  | nil => rfl
  | cons first later =>
    rw [List.foldl_cons, preferred, foldl_preferred_some]
    cases kind : first.isInit <;> simp [kind]

end Candidate

theorem Found.lookup_add (found : Found) (name : String) (candidate : Candidate) (other : String) :
    (found.add name candidate).lookup other =
      if other = name then Candidate.preferred (found.lookup name) candidate
      else found.lookup other := by
  unfold Found.add
  split
  · next absent =>
    rw [List.lookup_append, lookup_pair_cons]
    by_cases same : other = name
    · subst same
      simp [absent, Candidate.preferred]
    · simp [same]
  · next old present =>
    by_cases same : other = name
    · subst same
      simp only [Candidate.preferred, present, if_true]
      split
      · rw [lookup_setPair, if_pos rfl]
      · exact present
    · rw [if_neg same]
      split
      · rw [lookup_setPair, if_neg same]
      · rfl

/-! ## Candidates that a walk meets -/

section

variable (files : Files) (suffix root : String)

/-- The module name of what a walk below a root meets, and whether it stands for its directory. -/
def FilePlace.module? (met : FilePlace × Node) : Option (String × Bool) :=
  (moduleName? suffix met.1.directories met.1.name).filter fun _ => files.isFile (met.1.path root)

/-- The place of what a walk meets if it has a module name. -/
def FilePlace.offer? (n : String) (met : FilePlace × Node) : Option (FilePlace × Bool) :=
  (FilePlace.module? files suffix root met).bind fun (name, isInit) =>
    if n = name then some (met.1, isInit) else none

/-- The files with a module name that a walk through the entries of a root meets, in its order. -/
def FilePlace.offers (n : String) (entries : List (String × Node)) : List (FilePlace × Bool) :=
  (Node.leaves [] entries).filterMap (FilePlace.offer? files suffix root n)

def FilePlace.candidate (offer : FilePlace × Bool) : Candidate := ⟨offer.1.path root, offer.2⟩

/-- The candidates after a walk has met an entry. -/
def Found.meet (found : Found) (met : FilePlace × Node) : Found :=
  match FilePlace.module? files suffix root met with
  | some (name, isInit) => found.add name ⟨met.1.path root, isInit⟩
  | none => found

theorem Found.meet_eq (found : Found) (place : FilePlace) (node : Node) :
    found.meet files suffix root (place, node) =
      if files.isFile (place.path root) then
        found.addFile suffix (place.path root) place.directories place.name
      else found := by
  rw [meet, addFile, FilePlace.module?]
  dsimp only
  cases files.isFile (place.path root) <;>
    cases moduleName? suffix place.directories place.name <;> rfl

mutual

/-- A walk adds what it meets. -/
theorem walkEntries_eq (above : List String) :
    ∀ (entries : List (String × Node)) (found : Found),
      walkEntries files suffix (above.foldl Path.join root) above entries found =
        (Node.leaves above entries).foldl (Found.meet files suffix root) found
  | [], found => rfl
  | (name, node) :: rest, found => by
    have inner := walkNode_eq above name node found
    rw [FilePlace.path] at inner
    rw [walkEntries, Node.leaves, List.foldl_append, inner, walkEntries_eq above rest]

theorem walkNode_eq (above : List String) (name : String) :
    ∀ (node : Node) (found : Found),
      walkNode files suffix (FilePlace.path root ⟨above, name⟩) above name node found =
        (Node.leavesAt above name node).foldl (Found.meet files suffix root) found
  | .directory entries, found => by
    have path : FilePlace.path root ⟨above, name⟩ = (above ++ [name]).foldl Path.join root := by
      rw [FilePlace.path, List.foldl_append, List.foldl_cons, List.foldl_nil]
    rw [walkNode, Node.leavesAt, path, walkEntries_eq (above ++ [name]) entries]
  | .file content, found => by
    rw [walkNode, Node.leavesAt, List.foldl_cons, List.foldl_nil, Found.meet_eq]
    · simp
  | .link target, found => by
    rw [walkNode, Node.leavesAt, List.foldl_cons, List.foldl_nil, Found.meet_eq]
    · simp

end

theorem Found.lookup_meets (n : String) (met : List (FilePlace × Node)) (found : Found) :
    (met.foldl (Found.meet files suffix root) found).lookup n =
      ((met.filterMap (FilePlace.offer? files suffix root n)).map (FilePlace.candidate root)).foldl
        Candidate.preferred (found.lookup n) := by
  induction met generalizing found with
  | nil => rfl
  | cons first rest ih =>
    rw [List.foldl_cons, ih, List.filterMap_cons]
    cases name : FilePlace.module? files suffix root first with
    | none => simp [Found.meet, FilePlace.offer?, name]
    | some module =>
      obtain ⟨name', isInit⟩ := module
      by_cases same : n = name'
      · subst same
        simp [Found.meet, FilePlace.offer?, name, Found.lookup_add, FilePlace.candidate]
      · simp [Found.meet, FilePlace.offer?, name, Found.lookup_add, same]

/-- Of the files with a name the first plain one is taken, and the first of all if none is plain. -/
theorem lookup_candidates (n : String) {entries : List (String × Node)}
    (readable : files.entries? root = some entries) :
    (candidates files suffix root).lookup n =
      (((FilePlace.offers files suffix root n entries).find? (!·.2)).or
        (FilePlace.offers files suffix root n entries).head?).map (FilePlace.candidate root) := by
  have walked := walkEntries_eq files suffix root [] entries []
  rw [List.foldl_nil] at walked
  rw [candidates, readable]
  dsimp only
  rw [walked, Found.lookup_meets, List.lookup_nil, Candidate.foldl_preferred]
  exact (congr (congrArg Option.or List.find?_map) List.head?_map).trans Option.map_or.symm

end

/-! ## Files of a module -/

namespace Files

/-- Whether an entry that is no directory is a file or leads to one. -/
def isRegular (files : Files) (path : String) : Node → Bool
  | .file _ => true
  | .link _ => files.isFile path
  | .directory _ => false

end Files

/--
A file that has a module name below a root, reached through real directories only, with a path that
is not too long.
-/
def Defines (files : Files) (suffix root n : String) (place : FilePlace) (isInit : Bool) : Prop :=
  ∃ entries node, files.entries? root = some entries ∧
    Node.Leaf entries place.directories place.name node ∧
      files.isRegular (place.path root) node = true ∧
        (place.path root).utf8ByteSize ≤ Files.nameLimit ∧
          moduleName? suffix place.directories place.name = some (n, isInit)

/-- What a walk takes for a file of a module. -/
def Offers (files : Files) (suffix root n : String) (place : FilePlace) (isInit : Bool) : Prop :=
  ∃ entries node, files.entries? root = some entries ∧
    Node.Leaf entries place.directories place.name node ∧
      files.isFile (place.path root) = true ∧
        moduleName? suffix place.directories place.name = some (n, isInit)

/-- A walk through a sound tree takes the files that define a module. -/
theorem offers_iff {files : Files} (sound : files.root.isSound = true) {suffix root n : String}
    {place : FilePlace} {isInit : Bool} :
    Offers files suffix root n place isInit ↔ Defines files suffix root n place isInit := by
  refine exists_congr fun entries => exists_congr fun node => and_congr_right fun readable =>
    and_congr_right fun leaf => ?_
  rw [← and_assoc]
  refine and_congr_left fun _ => ⟨fun file => ⟨?_, ?_⟩, ?_⟩
  · cases node with
    | file content => rfl
    | link target => exact file
    | directory inner => cases leaf.solid
  · exact (Files.flaw?_eq_none_iff.1 (Files.plain_of_isFile file)).2.2
  · rintro ⟨regular, short⟩
    cases node with
    | file content => exact Files.isFile_of_leaf sound readable leaf short
    | link target => exact regular
    | directory inner => cases regular

/-- The first one in the order of a walk of the places with a property. -/
def FilePlace.First (holds : FilePlace → Prop) (place : FilePlace) : Prop :=
  holds place ∧ ∀ other, holds other → other = place ∨ place.Before other

/-- The file that is taken for a name below a root: the first plain one, or else the first. -/
def Wins (files : Files) (suffix root n : String) (place : FilePlace) : Prop :=
  FilePlace.First (Defines files suffix root n · false) place ∨
    (∀ other, ¬ Defines files suffix root n other false) ∧
      FilePlace.First (Defines files suffix root n · true) place

theorem FilePlace.First.unique {holds : FilePlace → Prop} {a b : FilePlace}
    (first : FilePlace.First holds a) (second : FilePlace.First holds b) : a = b := by
  rcases first.2 b second.1 with same | before
  · exact same.symm
  · rcases second.2 a first.1 with same | after
    · exact same
    · exact absurd after (FilePlace.before_asymm before)

theorem Wins.unique {files : Files} {suffix root n : String} {a b : FilePlace}
    (first : Wins files suffix root n a) (second : Wins files suffix root n b) : a = b := by
  rcases first with first | ⟨none, first⟩ <;> rcases second with second | ⟨none', second⟩
  · exact first.unique second
  · exact absurd first.1 (none' a)
  · exact absurd second.1 (none b)
  · exact first.unique second

theorem Wins.defines {files : Files} {suffix root n : String} {place : FilePlace}
    (wins : Wins files suffix root n place) :
    ∃ isInit, Defines files suffix root n place isInit := by
  rcases wins with first | ⟨-, first⟩
  · exact ⟨false, first.1⟩
  · exact ⟨true, first.1⟩

/-- The first element of a sorted list that passes a test comes before all others that do. -/
theorem find?_sorted {α : Type} {before : α → α → Prop} {l : List α} {test : α → Bool} {a : α}
    (sorted : l.Pairwise before) (found : l.find? test = some a) :
    a ∈ l ∧ test a = true ∧ ∀ b ∈ l, test b = true → b = a ∨ before a b := by
  obtain ⟨passes, earlier, later, rfl, failed⟩ := List.find?_eq_some_iff_append.1 found
  refine ⟨List.mem_append_right _ List.mem_cons_self, passes, fun b inside passed => ?_⟩
  rcases List.mem_append.1 inside with inside | inside
  · have failed := failed b inside
    rw [passed] at failed
    cases failed
  · rcases List.mem_cons.1 inside with rfl | inside
    · exact .inl rfl
    · exact .inr (List.rel_of_pairwise_cons (List.pairwise_append.1 sorted).2.1 inside)

section

variable {files : Files} {suffix root n : String} {entries : List (String × Node)}
  {place : FilePlace} {isInit : Bool}

theorem FilePlace.offer?_eq_some {met : FilePlace × Node} {offer : FilePlace × Bool} :
    FilePlace.offer? files suffix root n met = some offer ↔
      offer.1 = met.1 ∧ FilePlace.module? files suffix root met = some (n, offer.2) := by
  rw [FilePlace.offer?, Option.bind_eq_some_iff]
  constructor
  · rintro ⟨⟨name, kind⟩, named, same⟩
    obtain ⟨rfl, offered⟩ := Option.ite_none_right_eq_some.1 same
    obtain rfl := Option.some.inj offered
    exact ⟨rfl, named⟩
  · rintro ⟨same, named⟩
    refine ⟨_, named, ?_⟩
    dsimp only
    rw [if_pos rfl, ← same]

theorem mem_offers (readable : files.entries? root = some entries) :
    (place, isInit) ∈ FilePlace.offers files suffix root n entries ↔
      Offers files suffix root n place isInit := by
  rw [FilePlace.offers, List.mem_filterMap]
  constructor
  · rintro ⟨⟨met, node⟩, inside, offered⟩
    obtain ⟨rfl, named⟩ := FilePlace.offer?_eq_some.1 offered
    obtain ⟨below, directories, leaf⟩ := (Node.mem_leaves [] entries).1 inside
    rw [List.nil_append] at directories
    subst directories
    obtain ⟨named, file⟩ := Option.filter_eq_some_iff.1 named
    exact ⟨entries, node, readable, leaf, file, named⟩
  · rintro ⟨entries', node, readable', leaf, file, named⟩
    cases readable.symm.trans readable'
    refine ⟨(place, node), (Node.mem_leaves [] entries).2 ⟨_, rfl, leaf⟩, ?_⟩
    exact FilePlace.offer?_eq_some.2 ⟨rfl, Option.filter_eq_some_iff.2 ⟨named, file⟩⟩

theorem offers_ascending (sound : Node.areSound entries = true) :
    (FilePlace.offers files suffix root n entries).Pairwise fun a b => a.1.Before b.1 := by
  refine (Node.leaves_ascending [] entries sound).filterMap _ ?_
  intro met met' before offer offered offer' offered'
  rw [(FilePlace.offer?_eq_some.1 offered).1, (FilePlace.offer?_eq_some.1 offered').1]
  exact before

/-- Whatever a walk takes for a name is the file that wins. -/
theorem wins_of_lookup {candidate : Candidate} (sound : files.root.isSound = true)
    (taken : (candidates files suffix root).lookup n = some candidate) :
    ∃ place, Wins files suffix root n place ∧ candidate.path = place.path root := by
  cases readable : files.entries? root with
  | none =>
    rw [candidates, readable] at taken
    cases taken
  | some entries =>
    have sorted : (FilePlace.offers files suffix root n entries).Pairwise
        fun a b => a.1.Before b.1 := offers_ascending (Files.entries_sound sound readable)
    have member (place : FilePlace) (isInit : Bool) :
        (place, isInit) ∈ FilePlace.offers files suffix root n entries ↔
          Defines files suffix root n place isInit :=
      (mem_offers readable).trans (offers_iff sound)
    rw [lookup_candidates files suffix root n readable, Option.map_eq_some_iff] at taken
    obtain ⟨⟨place, isInit⟩, chosen, rfl⟩ := taken
    refine ⟨place, ?_, rfl⟩
    cases plain : (FilePlace.offers files suffix root n entries).find? (!·.2) with
    | some offer =>
      rw [plain] at chosen
      cases chosen
      obtain ⟨inside, kind, first⟩ := find?_sorted sorted plain
      obtain rfl : isInit = false := by simpa using kind
      refine .inl ⟨(member _ _).1 inside, fun other defines => ?_⟩
      rcases first (other, false) ((member _ _).2 defines) rfl with same | before
      · exact .inl (congrArg Prod.fst same)
      · exact .inr before
    | none =>
      rw [plain, Option.none_or] at chosen
      have allInit : ∀ offer ∈ FilePlace.offers files suffix root n entries, offer.2 = true := by
        simpa using List.find?_eq_none.1 plain
      obtain ⟨rest, offers⟩ : ∃ rest, FilePlace.offers files suffix root n entries =
          (place, isInit) :: rest := by
        cases offers : FilePlace.offers files suffix root n entries with
        | nil =>
          rw [offers] at chosen
          cases chosen
        | cons first rest =>
          rw [offers] at chosen
          cases chosen
          exact ⟨rest, rfl⟩
      have inside : (place, isInit) ∈ FilePlace.offers files suffix root n entries := by
        rw [offers]
        exact List.mem_cons_self
      obtain rfl : isInit = true := allInit _ inside
      refine .inr ⟨fun other defines => ?_, (member _ _).1 inside, fun other defines => ?_⟩
      · cases allInit _ ((member _ _).2 defines)
      · have found := (member _ _).2 defines
        rw [offers] at found sorted
        rcases List.mem_cons.1 found with same | later
        · exact .inl (congrArg Prod.fst same)
        · exact .inr (List.rel_of_pairwise_cons sorted later)

theorem lookup_candidates_eq_none :
    (candidates files suffix root).lookup n = none ↔
      ∀ place isInit, ¬ Offers files suffix root n place isInit := by
  cases readable : files.entries? root with
  | none =>
    rw [candidates, readable]
    refine ⟨fun _ place isInit offers => ?_, fun _ => rfl⟩
    obtain ⟨entries, _, readable', -⟩ := offers
    cases readable.symm.trans readable'
  | some entries =>
    rw [lookup_candidates files suffix root n readable, Option.map_eq_none_iff,
      Option.or_eq_none_iff, List.head?_eq_none_iff]
    constructor
    · rintro ⟨-, none⟩ place isInit offers
      have inside := (mem_offers readable).2 offers
      rw [none] at inside
      cases inside
    · intro none
      have empty : FilePlace.offers files suffix root n entries = [] :=
        List.eq_nil_iff_forall_not_mem.2 fun offer inside =>
          none offer.1 offer.2 ((mem_offers readable).1 inside)
      rw [empty]
      exact ⟨rfl, rfl⟩

/-- A walk through a sound tree takes some file for a name exactly if one defines it. -/
theorem lookup_candidates_eq_none_iff (sound : files.root.isSound = true) :
    (candidates files suffix root).lookup n = none ↔
      ∀ place isInit, ¬ Defines files suffix root n place isInit := by
  rw [lookup_candidates_eq_none]
  simp only [offers_iff sound]

end

/-! ## Roots -/

namespace ModuleIndex

variable (files : Files) (suffix : String) (source : String → ModuleFile) (n : String)

theorem get?_offer (index : ModuleIndex) (name : String) (file : ModuleFile) :
    (index.offer name file).get? n =
      (index.get? n).or (if n = name then some file else none) := by
  unfold offer
  split
  · next present =>
    by_cases same : n = name
    · subst same
      rw [contains, Option.isSome_iff_exists] at present
      obtain ⟨old, found⟩ := present
      rw [found, Option.some_or]
    · rw [if_neg same, Option.or_none]
  · next absent =>
    rw [insert, get?, lookup_setPair]
    by_cases same : n = name
    · subst same
      have missing : index.get? n = none := by simpa [contains] using absent
      rw [if_pos rfl, if_pos rfl, missing, Option.none_or]
    · rw [if_neg same, if_neg same, Option.or_none, get?]

theorem get?_foldl_offer (found : Found) (index : ModuleIndex) :
    (found.foldl (fun index (name, candidate) => index.offer name (source candidate.path))
      index).get? n =
      (index.get? n).or ((found.lookup n).map fun candidate => source candidate.path) := by
  induction found generalizing index with
  | nil => simp
  | cons first rest ih =>
    obtain ⟨name, candidate⟩ := first
    rw [List.foldl_cons, ih, get?_offer, Option.or_assoc, lookup_pair_cons]
    by_cases same : n = name <;> simp [same]

/-- The file of a name is what the index had for it, or else what the first root with one has. -/
theorem get?_scan (index : ModuleIndex) (roots : List String) :
    (index.scan files roots suffix source).get? n =
      (index.get? n).or (roots.findSome? fun root =>
        ((candidates files suffix root).lookup n).map fun candidate => source candidate.path) := by
  unfold scan
  induction roots generalizing index with
  | nil => simp
  | cons root roots ih =>
    rw [List.foldl_cons, ih, get?_foldl_offer, Option.or_assoc, List.findSome?_cons]
    cases (candidates files suffix root).lookup n <;> simp

/-- What an index has already is not replaced. -/
theorem get?_scan_of_some {index : ModuleIndex} {file : ModuleFile} (roots : List String)
    (found : index.get? n = some file) :
    (index.scan files roots suffix source).get? n = some file := by
  rw [get?_scan, found, Option.some_or]

variable {files suffix source n}

/-- An index that starts empty has the winner of the first root where a file defines the name. -/
theorem get?_scan_empty (sound : files.root.isSound = true) (roots : List String)
    (file : ModuleFile) :
    (({} : ModuleIndex).scan files roots suffix source).get? n = some file ↔
      ∃ before root after place, roots = before ++ root :: after ∧
        (∀ earlier ∈ before, ∀ other isInit, ¬ Defines files suffix earlier n other isInit) ∧
          Wins files suffix root n place ∧ file = source (place.path root) := by
  have empty : ({} : ModuleIndex).get? n = none := rfl
  rw [get?_scan, empty, Option.none_or, List.findSome?_eq_some_iff]
  constructor
  · rintro ⟨before, root, after, rfl, taken, earlier⟩
    obtain ⟨candidate, found, rfl⟩ := Option.map_eq_some_iff.1 taken
    obtain ⟨place, wins, path⟩ := wins_of_lookup sound found
    refine ⟨before, root, after, place, rfl, fun other inside => ?_, wins, by rw [path]⟩
    exact (lookup_candidates_eq_none_iff sound).1 (Option.map_eq_none_iff.1 (earlier other inside))
  · rintro ⟨before, root, after, place, rfl, earlier, wins, rfl⟩
    refine ⟨before, root, after, rfl, ?_, fun other inside => ?_⟩
    · obtain ⟨isInit, defines⟩ := wins.defines
      cases taken : (candidates files suffix root).lookup n with
      | none => exact absurd defines ((lookup_candidates_eq_none_iff sound).1 taken place isInit)
      | some candidate =>
        obtain ⟨place', wins', path⟩ := wins_of_lookup sound taken
        obtain rfl := wins'.unique wins
        rw [Option.map_some, path]
    · exact Option.map_eq_none_iff.2
        ((lookup_candidates_eq_none_iff sound).2 (earlier other inside))

theorem contains_scan_empty (sound : files.root.isSound = true) (roots : List String) :
    (({} : ModuleIndex).scan files roots suffix source).contains n = true ↔
      ∃ root ∈ roots, ∃ place isInit, Defines files suffix root n place isInit := by
  have empty : ({} : ModuleIndex).get? n = none := rfl
  rw [contains, get?_scan, empty, Option.none_or, List.findSome?_isSome_iff]
  refine exists_congr fun root => and_congr_right fun _ => ?_
  rw [Option.isSome_map, Option.isSome_iff_ne_none, ne_eq, lookup_candidates_eq_none_iff sound]
  simp only [Classical.not_forall, Classical.not_not]

/-- Scripts are found before native modules, whatever their roots. -/
theorem get?_ofSettings_of_script {m : ModuleSettings} {environment : Variables}
    {file : ModuleFile}
    (found : (({} : ModuleIndex).scan files (searchRoots (m.scriptPath environment) m.suffix
      (if m.includeCwd then some files.cwd else none)) m.suffix .script).get? n = some file) :
    (ofSettings m files environment).get? n = some file := by
  unfold ofSettings
  dsimp only
  split
  · exact get?_scan_of_some _ _ _ _ _ found
  · exact found

/--
A name is in the index of some roots exactly if a file below one of them defines it.  It leads to
the file that wins below the first such root; what an index has is never replaced, so that a script
module wins over a native one of the same name.
-/
theorem scan_precedence (sound : files.root.isSound = true) (roots : List String)
    (suffix : String) (source : String → ModuleFile) (n : String) :
    ((({} : ModuleIndex).scan files roots suffix source).contains n = true ↔
      ∃ root ∈ roots, ∃ place isInit, Defines files suffix root n place isInit) ∧
    (∀ file, (({} : ModuleIndex).scan files roots suffix source).get? n = some file ↔
      ∃ before root after place, roots = before ++ root :: after ∧
        (∀ earlier ∈ before, ∀ other isInit, ¬ Defines files suffix earlier n other isInit) ∧
          Wins files suffix root n place ∧ file = source (place.path root)) ∧
    (∀ (index : ModuleIndex) file, index.get? n = some file →
      (index.scan files roots suffix source).get? n = some file) ∧
    ∀ (m : ModuleSettings) (environment : Variables) file,
      (({} : ModuleIndex).scan files (searchRoots (m.scriptPath environment) m.suffix
        (if m.includeCwd then some files.cwd else none)) m.suffix .script).get? n = some file →
          (ofSettings m files environment).get? n = some file :=
  ⟨contains_scan_empty sound roots, get?_scan_empty sound roots,
    fun _ _ found => get?_scan_of_some files suffix source n roots found,
    fun _ _ _ found => get?_ofSettings_of_script found⟩

/-- A tree in which four files have one name, with a directory that leads back to the root. -/
def entangled : Files where
  root := .directory [
    ("later", .directory [("a.b.lua", .file .empty)]),
    ("r", .directory [
      ("a", .directory [
        ("b", .directory [("init.lua", .file .empty), ("up", .link "/r")]),
        ("b.lua", .link "/later/a.b.lua")]),
      ("a.b.lua", .file .empty)])]

/-- The link to a file wins: it is plain and comes before the other plain file of its root. -/
theorem scan_precedence_entangled :
    entangled.root.isSound = true ∧ ∃ place, Wins entangled ".lua" "/r" "a.b" place ∧
      place.path "/r" = "/r/a/b.lua" ∧
        (({} : ModuleIndex).scan entangled ["/r", "/later"] ".lua" .script).get? "a.b" =
          some (.script (place.path "/r")) := by
  have sound : entangled.root.isSound = true := by decide +kernel
  have found : (({} : ModuleIndex).scan entangled ["/r", "/later"] ".lua" .script).get? "a.b" =
      some (.script "/r/a/b.lua") := by decide +kernel
  have first : (({} : ModuleIndex).scan entangled ["/r"] ".lua" .script).contains "a.b" = true := by
    decide +kernel
  obtain ⟨root, inside, other, isInit, defines⟩ :=
    (scan_precedence sound ["/r"] ".lua" .script "a.b").1.1 first
  obtain rfl := List.mem_singleton.1 inside
  obtain ⟨before, root, after, place, roots, earlier, wins, file⟩ :=
    ((scan_precedence sound ["/r", "/later"] ".lua" .script "a.b").2.1 _).1 found
  cases before with
  | nil =>
    obtain ⟨rfl, rfl⟩ := List.cons_eq_cons.1 roots
    have path := ModuleFile.script.inj file
    exact ⟨sound, place, wins, path.symm, by rw [← path, found]⟩
  | cons root' before =>
    obtain ⟨rfl, -⟩ := List.cons_eq_cons.1 roots
    exact absurd defines (earlier _ List.mem_cons_self other isInit)

/-! ## Paths that are too long -/

/-- A tree with one module. -/
def plain : Files where
  root := .directory [("r", .directory [("m.lua", .file .empty)])]

/-- A spelling of `/r` with separators that do not count. -/
def spelling (separators : Nat) : String :=
  String.ofList (List.replicate separators '/') ++ "/" ++ "r"

theorem isAbsolute_spelling (separators : Nat) : Path.isAbsolute (spelling separators) = true := by
  rw [Path.isAbsolute_iff, spelling]
  cases separators with
  | zero => exact ⟨"r", by rw [List.replicate_zero, String.ofList_nil, String.empty_append]⟩
  | succ separators =>
    refine ⟨String.ofList (List.replicate separators '/') ++ "/" ++ "r", ?_⟩
    rw [List.replicate_succ, String.ofList_cons, String.append_assoc, String.append_assoc,
      String.append_assoc]
    rfl

theorem same_spelling (separators : Nat) : Path.Same (spelling separators) "/r" := by
  have absolute := isAbsolute_spelling separators
  have none : Path.parts (String.ofList (List.replicate separators '/')) = [] := by
    rw [Path.parts, List.filter_eq_nil_iff]
    intro part inside
    obtain ⟨letters, among, rfl⟩ := List.mem_map.1 inside
    rw [String.toList_ofList] at among
    have noLetter : letters = [] := by
      refine List.eq_nil_iff_forall_not_mem.2 fun c holds => ?_
      have other : c ≠ '/' := by
        rintro rfl
        exact not_mem_of_mem_splitList '/' among holds
      exact other (List.eq_of_mem_replicate ((mem_splitList other _).2 ⟨letters, among, holds⟩))
    rw [noLetter]
    decide
  refine ⟨absolute, ?_⟩
  rw [Path.components_eq absolute, spelling, Path.parts_join, none]
  decide +kernel

theorem utf8ByteSize_spelling (separators : Nat) :
    (spelling separators).utf8ByteSize = separators + 2 := by
  have size : (String.ofList (List.replicate separators '/')).utf8ByteSize = separators := by
    induction separators with
    | zero => rfl
    | succ separators ih =>
      rw [List.replicate_succ, String.ofList_cons, String.utf8ByteSize_append, ih,
        String.utf8ByteSize_singleton, Nat.add_comm]
      rfl
  rw [spelling, String.utf8ByteSize_append, String.utf8ByteSize_append, size]
  rfl

theorem mem_spelling {separators : Nat} {c : Char} (inside : c ∈ (spelling separators).toList) :
    c = '/' ∨ c = 'r' := by
  rw [spelling, String.toList_append, String.toList_append, String.toList_ofList,
    List.mem_append, List.mem_append, List.mem_replicate] at inside
  rcases inside with (⟨-, rfl⟩ | inside) | inside
  · exact .inl rfl
  · exact .inl (List.mem_singleton.1 inside)
  · exact .inr (List.mem_singleton.1 inside)

theorem readable_spelling {separators : Nat} (short : separators + 2 ≤ Files.nameLimit) :
    plain.entries? (spelling separators) = some [("m.lua", .file .empty)] := by
  rw [← utf8ByteSize_spelling] at short
  exact Files.entries?_of_same (isAbsolute_spelling separators) (same_spelling separators) short rfl

theorem isFile_spelling {separators : Nat} (long : Files.nameLimit < separators + 7) :
    plain.isFile (Path.join (spelling separators) "m.lua") = false := by
  rw [Bool.eq_false_iff]
  intro file
  have short := (Files.flaw?_eq_none_iff.1 (Files.plain_of_isFile file)).2.2
  have given := Path.ne_empty_of_isAbsolute (isAbsolute_spelling separators)
  have named : Path.isName "m.lua" = true := by decide +kernel
  have above := Path.utf8ByteSize_le_under (spelling separators)
  have below : "m.lua".utf8ByteSize = 5 := rfl
  rw [Path.join_of_isName given named, String.utf8ByteSize_append, below] at short
  rw [utf8ByteSize_spelling] at above
  omega

/-- A file whose path is too long is passed over, though it is found in its directory. -/
theorem contains_spelling {separators : Nat} (short : separators + 2 ≤ Files.nameLimit)
    (long : Files.nameLimit < separators + 7) :
    (({} : ModuleIndex).scan plain [spelling separators] ".lua" .script).contains "m" = false ∧
      ∃ entries node isInit, ∃ place : FilePlace,
        plain.entries? (spelling separators) = some entries ∧
          Node.Leaf entries place.directories place.name node ∧
            plain.isRegular (place.path (spelling separators)) node = true ∧
              moduleName? ".lua" place.directories place.name = some ("m", isInit) := by
  have readable := readable_spelling short
  constructor
  · rw [scan, List.foldl_cons, List.foldl_nil, candidates, readable]
    dsimp only
    rw [walkEntries, walkNode, walkEntries, isFile_spelling long]
    rfl
  · exact ⟨_, .file .empty, false, ⟨[], "m.lua"⟩, readable, .here List.mem_cons_self rfl, rfl,
      by decide +kernel⟩

/--
A name is missing though a file below a readable root has it: the root's path is not too long, but
that of the file is.
-/
theorem scan_precedence_long_path :
    plain.root.isSound = true ∧ (plain.entries? (spelling 4090)).isSome = true ∧
      ¬ ((({} : ModuleIndex).scan plain [spelling 4090] ".lua" .script).contains "m" = true ↔
        ∃ entries node isInit, ∃ place : FilePlace,
          plain.entries? (spelling 4090) = some entries ∧
            Node.Leaf entries place.directories place.name node ∧
              plain.isRegular (place.path (spelling 4090)) node = true ∧
                moduleName? ".lua" place.directories place.name = some ("m", isInit)) := by
  have short : 4090 + 2 ≤ Files.nameLimit := by decide
  have long : Files.nameLimit < 4090 + 7 := by decide
  obtain ⟨missing, present⟩ := contains_spelling short long
  refine ⟨by decide +kernel, Option.isSome_of_eq_some (readable_spelling short), fun same => ?_⟩
  exact Bool.false_ne_true (missing.symm.trans (same.2 present))

end ModuleIndex

end ScriptHost
