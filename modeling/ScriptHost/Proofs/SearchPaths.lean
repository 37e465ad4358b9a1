import Mathlib.Data.List.Basic
import Mathlib.Data.List.Induction
import ScriptHost.Proofs.IndexPrecedence
import ScriptHost.Proofs.PathSpellings

/-!
# Search paths

A search path may name a directory several times and in several spellings.  The directory is
searched once, where it comes first and as it is spelled there.  This leaves all modules in their
files, unless the first spelling makes names too long that a later one would have led to.
-/

namespace ScriptHost

namespace SearchRoots

theorem replaceText_of_not_mem {mark : Char} {text : String} (pattern replacement : String)
    (absent : mark ∉ text.toList) :
    replaceText (mark.toString ++ pattern) replacement text = text := by
  have kept (letters : List Char) (absent : mark ∉ letters) :
      replaceAll.go (mark.toString ++ pattern).toList replacement.toList letters 0 = letters := by
    induction letters with
    | nil => rfl
    | cons c rest ih =>
      rw [List.mem_cons, not_or] at absent
      have start : (mark.toString ++ pattern).toList.isPrefixOf (c :: rest) = false := by
        simp [List.isPrefixOf, absent.1]
      rw [replaceAll.go, start, if_neg Bool.false_ne_true, ih absent.2]
  rw [replaceText, replaceAll, kept _ absent, String.ofList_toList]

/-- An entry without a template names its directory. -/
theorem stripTemplates_of_not_mem (suffix : String) {entry : String}
    (absent : '?' ∉ entry.toList) : stripTemplates suffix entry = entry := by
  have first : replaceText ("?/init" ++ suffix) "" entry = entry := by
    have spelled : "?/init" ++ suffix = '?'.toString ++ ("/init" ++ suffix) := by
      rw [← String.append_assoc]
      rfl
    rw [spelled]
    exact replaceText_of_not_mem _ _ absent
  have mark : "?" = '?'.toString := rfl
  rw [stripTemplates, first, mark]
  exact replaceText_of_not_mem suffix "" absent

/-- A path that is absolute and is not spelled in any way before it is met. -/
def FirstIn (entries : List String) (path : String) : Prop :=
  ∃ before after, entries = before ++ path :: after ∧ Path.isAbsolute path = true ∧
    ∀ other ∈ before, ¬ Path.Same other path

variable {entries : List String} {path last : String}

theorem firstIn_concat :
    FirstIn (entries ++ [last]) path ↔
      FirstIn entries path ∨ path = last ∧ Path.isAbsolute last = true ∧
        ∀ other ∈ entries, ¬ Path.Same other last := by
  constructor
  · rintro ⟨before, after, same, absolute, new⟩
    rcases after.eq_nil_or_concat' with rfl | ⟨after, final, rfl⟩
    · obtain ⟨rfl, rfl⟩ := List.append_singleton_inj.1 same
      exact .inr ⟨rfl, absolute, new⟩
    · rw [← List.cons_append, ← List.append_assoc] at same
      obtain ⟨rfl, rfl⟩ := List.append_singleton_inj.1 same
      exact .inl ⟨before, after, rfl, absolute, new⟩
  · rintro (⟨before, after, rfl, absolute, new⟩ | ⟨rfl, absolute, new⟩)
    · exact ⟨before, after ++ [last], by simp, absolute, new⟩
    · exact ⟨entries, [], rfl, absolute, new⟩

theorem distinct_append (kept first rest : List String) :
    distinct kept (first ++ rest) = distinct (distinct kept first) rest := by
  induction first generalizing kept with
  | nil => rfl
  | cons path first ih =>
    rw [List.cons_append, distinct, distinct]
    split
    · exact ih _
    · exact ih _

theorem mem_of_mem_distinct {kept : List String} (inside : path ∈ distinct kept entries) :
    path ∈ kept ++ entries := by
  induction entries generalizing kept with
  | nil => rwa [List.append_nil]
  | cons first rest ih =>
    rw [distinct] at inside
    split at inside
    · rw [List.append_cons]
      exact ih inside
    · exact List.mem_append.2 ((List.mem_append.1 (ih inside)).imp_right (List.mem_cons_of_mem _))

/-- Every absolute path is kept in some spelling. -/
theorem exists_same (inside : path ∈ entries) (absolute : Path.isAbsolute path = true) :
    ∃ root ∈ distinct [] entries, Path.Same root path := by
  induction entries using List.reverseRecOn with
  | nil => cases inside
  | append_singleton entries last ih =>
    rw [distinct_append, distinct, distinct, distinct]
    rcases List.mem_append.1 inside with inside | inside
    · obtain ⟨root, kept, same⟩ := ih inside
      refine ⟨root, ?_, same⟩
      split
      · exact List.mem_append_left _ kept
      · exact kept
    · obtain rfl := List.mem_singleton.1 inside
      split
      · exact ⟨path, List.mem_append_right _ List.mem_cons_self, .refl path⟩
      · next known => exact Classical.byContradiction fun missing => known ⟨absolute, missing⟩

/-- The last path of a list is kept if nothing before it is another spelling of it. -/
theorem distinct_concat (entries : List String) (last : String) :
    distinct [] (entries ++ [last]) =
      if Path.isAbsolute last = true ∧ ∀ other ∈ entries, ¬ Path.Same other last then
        distinct [] entries ++ [last]
      else distinct [] entries := by
  rw [distinct_append, distinct, distinct, distinct]
  refine if_congr (and_congr_right fun absolute => ⟨fun none other inside same => ?_, ?_⟩) rfl rfl
  · obtain ⟨root, kept, alike⟩ := exists_same inside (same.1.trans absolute)
    exact none ⟨root, kept, alike.trans same⟩
  · rintro none ⟨other, kept, same⟩
    exact none other (mem_of_mem_distinct kept) same

/-- Kept is what comes first. -/
theorem mem_distinct_iff : path ∈ distinct [] entries ↔ FirstIn entries path := by
  induction entries using List.reverseRecOn with
  | nil =>
    refine ⟨fun inside => absurd inside List.not_mem_nil, ?_⟩
    rintro ⟨before, after, none, -⟩
    exact absurd none.symm (by simp)
  | append_singleton entries last ih =>
    rw [distinct_concat, firstIn_concat, ← ih]
    split
    · next new =>
      rw [List.mem_append, List.mem_singleton]
      exact or_congr_right (and_iff_left new).symm
    · next known =>
      rw [or_iff_left]
      rintro ⟨-, new⟩
      exact known new

theorem distinct_pairwise (entries : List String) :
    (distinct [] entries).Pairwise fun a b =>
      ¬ Path.Same a b ∧ entries.idxOf a < entries.idxOf b := by
  induction entries using List.reverseRecOn with
  | nil => exact .nil
  | append_singleton entries last ih =>
    have kept : (distinct [] entries).Pairwise fun a b =>
        ¬ Path.Same a b ∧ (entries ++ [last]).idxOf a < (entries ++ [last]).idxOf b := by
      refine ih.imp_of_mem fun {a b} first second apart => ?_
      have first : a ∈ entries := mem_of_mem_distinct first
      have second : b ∈ entries := mem_of_mem_distinct second
      rw [List.idxOf_append_of_mem first, List.idxOf_append_of_mem second]
      exact apart
    rw [distinct_concat]
    split
    · next new =>
      refine List.pairwise_append.2 ⟨kept, List.pairwise_singleton _ _, fun a inside b final => ?_⟩
      obtain rfl := List.mem_singleton.1 final
      have inside : a ∈ entries := mem_of_mem_distinct inside
      have unknown : b ∉ entries := fun known => new.2 b known (.refl b)
      refine ⟨new.2 a inside, ?_⟩
      rw [List.idxOf_append_of_mem inside, List.idxOf_append_of_notMem unknown]
      have place := List.idxOf_lt_length_of_mem inside
      omega
    · exact kept

end SearchRoots

/-! ## Other spellings of a root -/

/-- No name that is looked up below a root is too long, and neither is the root. -/
def Files.Within (files : Files) (root : String) : Prop :=
  root.utf8ByteSize ≤ nameLimit ∧ ∀ entries, files.entries? root = some entries →
    ∀ met ∈ Node.leaves [] entries, (met.1.path root).utf8ByteSize ≤ nameLimit

section

variable {files : Files} {suffix root other n : String} {place : FilePlace} {isInit : Bool}

/-- What a walk takes below a root it takes below any spelling that is not too long. -/
theorem Offers.of_same (absolute : Path.isAbsolute root = true) (same : Path.Same root other)
    (within : files.Within root) (offers : Offers files suffix other n place isInit) :
    Offers files suffix root n place isInit := by
  obtain ⟨entries, node, readable, leaf, file, named⟩ := offers
  have readable' := Files.entries?_of_same absolute same within.1 readable
  refine ⟨entries, node, readable', leaf, ?_, named⟩
  have short := within.2 entries readable' (place, node)
    ((Node.mem_leaves [] entries).2 ⟨_, rfl, leaf⟩)
  have alongside := Path.alongside_foldl_join (Path.ne_empty_of_isAbsolute absolute)
    (Path.ne_empty_of_isAbsolute (same.1 ▸ absolute)) place.directories place.name
  exact Files.isFile_of_same absolute same alongside short file

end

namespace ModuleIndex

variable {files : Files} {suffix : String} {source : String → ModuleFile} {index : ModuleIndex}

/-- Names that an index has already add nothing to it. -/
theorem foldl_offer_of_contains {found : Found}
    (known : ∀ n, found.lookup n ≠ none → index.contains n = true) :
    found.foldl (fun index (name, candidate) => index.offer name (source candidate.path)) index =
      index := by
  induction found with
  | nil => rfl
  | cons first rest ih =>
    obtain ⟨name, candidate⟩ := first
    have here : index.contains name = true := known name (by simp)
    have kept : index.offer name (source candidate.path) = index := if_pos here
    rw [List.foldl_cons]
    dsimp only
    rw [kept]
    refine ih fun n found => known n ?_
    rw [lookup_pair_cons]
    split
    · exact Option.some_ne_none _
    · exact found

theorem scan_append (index : ModuleIndex) (files : Files) (first rest : List String)
    (suffix : String) (source : String → ModuleFile) :
    index.scan files (first ++ rest) suffix source =
      (index.scan files first suffix source).scan files rest suffix source :=
  List.foldl_append

/-- A root adds nothing after one below which the same modules are found. -/
theorem scan_known {roots : List String} {root other : String} (inside : root ∈ roots)
    (covers : ∀ n place isInit, Offers files suffix other n place isInit →
      Offers files suffix root n place isInit) :
    (index.scan files roots suffix source).scan files [other] suffix source =
      index.scan files roots suffix source := by
  refine foldl_offer_of_contains fun n found => ?_
  have defined : (candidates files suffix root).lookup n ≠ none := by
    rw [Ne, lookup_candidates_eq_none] at found ⊢
    exact fun none => found fun place isInit offers => none place isInit (covers n _ _ offers)
  rw [contains, get?_scan, Option.isSome_or, Bool.or_eq_true, List.findSome?_isSome_iff]
  refine .inr ⟨root, inside, ?_⟩
  rw [Option.isSome_map]
  exact Option.isSome_iff_ne_none.2 defined

/-- Searching a directory again, under another name, finds nothing new. -/
theorem scan_distinct {entries : List String}
    (within : ∀ root ∈ SearchRoots.distinct [] entries, ∀ other ∈ entries,
      Path.Same root other → other ≠ root → files.Within root) :
    index.scan files (SearchRoots.distinct [] entries) suffix source =
      index.scan files (entries.filter (Path.isAbsolute ·)) suffix source := by
  induction entries using List.reverseRecOn with
  | nil => rfl
  | append_singleton entries last ih =>
    have before : ∀ root ∈ SearchRoots.distinct [] entries, ∀ other ∈ entries,
        Path.Same root other → other ≠ root → files.Within root := by
      intro root kept other inside
      refine within root ?_ other (List.mem_append_left _ inside)
      rw [SearchRoots.distinct_concat]
      split
      · exact List.mem_append_left _ kept
      · exact kept
    rw [List.filter_append, scan_append, ← ih before]
    cases absolute : Path.isAbsolute last with
    | false =>
      rw [SearchRoots.distinct_concat, absolute, if_neg (by simp), List.filter_singleton, absolute]
      rfl
    | true =>
      rw [List.filter_singleton, absolute, cond_true]
      by_cases new : ∀ other ∈ entries, ¬ Path.Same other last
      · rw [SearchRoots.distinct_concat, if_pos ⟨absolute, new⟩, scan_append]
      · have same : SearchRoots.distinct [] (entries ++ [last]) =
            SearchRoots.distinct [] entries := by
          rw [SearchRoots.distinct_concat, if_neg fun both => new both.2]
        rw [same] at within ⊢
        have known : ∃ root ∈ SearchRoots.distinct [] entries, Path.Same root last := by
          have inside : last ∈ entries ++ [last] := List.mem_append_right _ List.mem_cons_self
          rw [← same]
          exact SearchRoots.exists_same inside absolute
        obtain ⟨root, kept, alike⟩ := known
        refine (scan_known kept fun n place isInit offers => ?_).symm
        by_cases spelled : last = root
        · rwa [← spelled]
        · have inside : last ∈ entries ++ [last] := List.mem_append_right _ List.mem_cons_self
          exact offers.of_same (alike.1.trans absolute) alike
            (within root kept last inside alike spelled)

/--
The directories of a search path are those that are absolute and not spelled in any way before, in
the order in which they come first; every absolute one is among them in some spelling.  A scan finds
the same files as if all of them were scanned, unless a name is too long below the spelling that was
kept of a directory.
-/
theorem searchRoots_kept_once (list : Option String) (suffix : String) (cwd : Option String) :
    let entries := SearchRoots.entries list suffix cwd
    let roots := searchRoots list suffix cwd
    (∀ root, root ∈ roots ↔ ∃ before after, entries = before ++ root :: after ∧
      Path.isAbsolute root = true ∧ ∀ other ∈ before, ¬ Path.Same other root) ∧
    (roots.Pairwise fun a b => ¬ Path.Same a b) ∧
    (roots.Pairwise fun a b => entries.idxOf a < entries.idxOf b) ∧
    (∀ entry ∈ splitText ';' (list.getD ""),
      Path.isAbsolute (SearchRoots.stripTemplates suffix entry) = true →
        ∃ root ∈ roots, Path.Same root (SearchRoots.stripTemplates suffix entry)) ∧
    (∀ directory, cwd = some directory → Path.isAbsolute directory = true →
      ∃ root ∈ roots, Path.Same root directory) ∧
    ∀ (files : Files) (index : ModuleIndex) (ending : String) (source : String → ModuleFile),
      (∀ root ∈ roots, ∀ other ∈ entries, Path.Same root other → other ≠ root →
        files.Within root) →
      index.scan files roots ending source =
        index.scan files (entries.filter (Path.isAbsolute ·)) ending source := by
  intro entries roots
  have apart := SearchRoots.distinct_pairwise entries
  refine ⟨fun root => SearchRoots.mem_distinct_iff, apart.imp And.left, apart.imp And.right,
    fun entry inside => ?_, fun directory given => ?_, fun files index ending source => ?_⟩
  · exact SearchRoots.exists_same (List.mem_append_left _ (List.mem_map_of_mem inside))
  · exact SearchRoots.exists_same
      (List.mem_append_right _ (Option.mem_toList.2 given))
  · exact scan_distinct

/-- Of four names of a directory the first absolute one is searched, and the module is found. -/
theorem searchRoots_kept_once_four_names :
    searchRoots (some "rel/?.lua;/r/?.lua;/r/./?/init.lua;//r") ".lua" (some "/r") = ["/r/"] ∧
      ({} : ModuleIndex).scan plain ["/r/"] ".lua" .script =
        ({} : ModuleIndex).scan plain ["/r/", "/r/./", "//r", "/r"] ".lua" .script := by
  have roots : searchRoots (some "rel/?.lua;/r/?.lua;/r/./?/init.lua;//r") ".lua" (some "/r") =
      ["/r/"] := by decide +kernel
  have entries : (SearchRoots.entries (some "rel/?.lua;/r/?.lua;/r/./?/init.lua;//r") ".lua"
      (some "/r")).filter (Path.isAbsolute ·) = ["/r/", "/r/./", "//r", "/r"] := by decide +kernel
  have readable : plain.entries? "/r/" = some [("m.lua", .file .empty)] := rfl
  have within : plain.Within "/r/" := by
    refine ⟨by decide +kernel, fun found same => ?_⟩
    cases readable.symm.trans same
    decide +kernel
  have scanned := (searchRoots_kept_once (some "rel/?.lua;/r/?.lua;/r/./?/init.lua;//r") ".lua"
    (some "/r")).2.2.2.2.2 plain {} ".lua" .script
  rw [roots, entries] at scanned
  refine ⟨roots, scanned fun root inside _ _ _ _ => ?_⟩
  rw [List.mem_singleton.1 inside]
  exact within

/-! ## A spelling that is too long -/

/-- A spelling stands for itself in a search path. -/
theorem entries_spelling (separators : Nat) :
    SearchRoots.entries (some (spelling separators ++ ";" ++ "/r")) ".lua" none =
      [spelling separators, "/r"] := by
  have noSeparator : ';' ∉ (spelling separators).toList := by
    intro inside
    rcases mem_spelling inside with same | same <;> cases same
  have noTemplate : '?' ∉ (spelling separators).toList := by
    intro inside
    rcases mem_spelling inside with same | same <;> cases same
  have split : splitText ';' (spelling separators ++ ";" ++ "/r") =
      [spelling separators, "/r"] := by
    have joined : splitText ';' (spelling separators ++ ";" ++ "/r") = _ :=
      splitText_append ';' (spelling separators) "/r"
    rw [joined, splitText_of_not_mem noSeparator]
    rfl
  rw [SearchRoots.entries, Option.getD_some, split, List.map_cons,
    SearchRoots.stripTemplates_of_not_mem _ noTemplate, List.map_singleton,
    SearchRoots.stripTemplates_of_not_mem ".lua" (by decide)]
  rfl

/-- A directory whose first name is too long is not read, whatever its other names. -/
theorem scan_spelling {separators : Nat} (long : Files.nameLimit < separators + 2) :
    (({} : ModuleIndex).scan plain (searchRoots (some (spelling separators ++ ";" ++ "/r")) ".lua"
        none) ".lua" .script).get? "m" = none ∧
      (({} : ModuleIndex).scan plain ((SearchRoots.entries
        (some (spelling separators ++ ";" ++ "/r")) ".lua" none).filter (Path.isAbsolute ·)) ".lua"
          .script).get? "m" = some (.script "/r/m.lua") := by
  have entries := entries_spelling separators
  have absolute := isAbsolute_spelling separators
  have roots : searchRoots (some (spelling separators ++ ";" ++ "/r")) ".lua" none =
      [spelling separators] := by
    rw [searchRoots, entries, SearchRoots.distinct, if_pos ⟨absolute, by simp⟩,
      SearchRoots.distinct,
      if_neg fun new => new.2 ⟨_, List.mem_cons_self, same_spelling separators⟩]
    rfl
  have all : [spelling separators, "/r"].filter (Path.isAbsolute ·) =
      [spelling separators, "/r"] := by
    rw [List.filter_cons, absolute, if_pos rfl]
    rfl
  have unread : candidates plain ".lua" (spelling separators) = [] := by
    have flawed : Files.flaw? (spelling separators) ≠ none := by
      rw [Ne, Files.flaw?_eq_none_iff, utf8ByteSize_spelling]
      exact fun plain => Nat.not_le.2 long plain.2.2
    obtain ⟨flaw, found⟩ := Option.ne_none_iff_exists'.1 flawed
    have unreadable : plain.entries? (spelling separators) = none := by
      rw [Files.entries?, Files.resolve, found]
    rw [candidates, unreadable]
  rw [roots, entries, all, get?_scan, get?_scan, List.findSome?_cons, List.findSome?_cons, unread]
  exact ⟨rfl, by decide +kernel⟩

/--
A directory is not read under a first name that is too long, and its module is missing.  With all
names of the directory, the shorter one among them, the module is found.
-/
theorem searchRoots_kept_too_long :
    let list := some (spelling 4094 ++ ";" ++ "/r")
    (({} : ModuleIndex).scan plain (searchRoots list ".lua" none) ".lua" .script).get? "m" =
        none ∧
      (({} : ModuleIndex).scan plain ((SearchRoots.entries list ".lua" none).filter
        (Path.isAbsolute ·)) ".lua" .script).get? "m" = some (.script "/r/m.lua") :=
  scan_spelling (by decide)

end ModuleIndex

end ScriptHost
