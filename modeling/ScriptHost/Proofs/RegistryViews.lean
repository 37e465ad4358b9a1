import Mathlib.Data.List.Basic
import Mathlib.Data.List.Induction
import ScriptHost.Host.Registry
import ScriptHost.Proofs.IndexPrecedence

/-!
# The two indexes of a registry

A registry is asked for a full name or for a package.  Both answers are told by the entries in
order of registration: the last entry with a full name counts, and a package lists each of its
names once, where the name came first.  The two indexes agree because a full name leads back to its
package and its name as long as no name holds a colon, whatever the package is called.
-/

namespace ScriptHost

/-! ## Full names -/

section

variable {p q name other : String}

/-- What follows the last colon. -/
private theorem takeWhile_afterColon (before : List Char) {after : List Char}
    (plain : ':' ∉ after) :
    (before ++ ':' :: after).reverse.takeWhile (· != ':') = after.reverse := by
  rw [List.reverse_append, List.reverse_cons, List.append_assoc,
    List.takeWhile_append_of_pos fun c among => ?_]
  · simp
  · simpa using fun same : c = ':' => plain (same ▸ List.mem_reverse.1 among)

theorem qualified_of_ne (ne : p ≠ "") (name : String) :
    (qualified p name).toList = (p.toList ++ [':']) ++ ':' :: name.toList := by
  rw [qualified, if_neg ne]
  simp

/-- A full name has one package and one name. -/
theorem qualified_inj (plain : ':' ∉ name.toList) (plainOther : ':' ∉ other.toList) :
    qualified p name = qualified q other ↔ p = q ∧ name = other := by
  refine ⟨fun same => ?_, fun ⟨sameP, sameName⟩ => by rw [sameP, sameName]⟩
  by_cases emptyP : p = ""
  · by_cases emptyQ : q = ""
    · exact ⟨emptyP.trans emptyQ.symm, by simpa [qualified, emptyP, emptyQ] using same⟩
    · have bare : qualified p name = name := if_pos emptyP
      refine absurd ?_ plain
      rw [← bare, same, qualified_of_ne emptyQ]
      simp
  · by_cases emptyQ : q = ""
    · have bare : qualified q other = other := if_pos emptyQ
      refine absurd ?_ plainOther
      rw [← bare, ← same, qualified_of_ne emptyP]
      simp
    · have chars := congrArg String.toList same
      rw [qualified_of_ne emptyP, qualified_of_ne emptyQ] at chars
      have ends := congrArg (fun l => l.reverse.takeWhile (· != ':')) chars
      simp only [takeWhile_afterColon _ plain, takeWhile_afterColon _ plainOther] at ends
      have sameName : name = other := String.toList_inj.1 (List.reverse_inj.1 ends)
      subst sameName
      refine ⟨String.toList_inj.1 ?_, rfl⟩
      exact List.append_cancel_right (List.append_cancel_right chars)

end

namespace Entry

variable {entries : List Entry} {e : Entry} {p q name : String}

/-- Its name holds no colon. -/
def Plain (e : Entry) : Prop := ':' ∉ e.name.toList

instance (e : Entry) : Decidable e.Plain := inferInstanceAs (Decidable (¬ _))

/-- The last entry registered under a full name. -/
def latest (entries : List Entry) (q : String) : Option Entry :=
  (entries.filter (·.fullName = q)).getLast?

/-- The last entry registered under a name in a package. -/
def latestIn (p : String) (entries : List Entry) (name : String) : Option Entry :=
  (entries.filter fun e => e.package = p ∧ e.name = name).getLast?

/-- The names registered in a package, each where it came first. -/
def namesIn (p : String) (entries : List Entry) : List String :=
  ((entries.filter (·.package = p)).map Entry.name).eraseDups

/-- The full name whose second registration came first. -/
def FirstRepeated (entries : List Entry) (q : String) : Prop :=
  ∃ before e after, entries = before ++ e :: after ∧ e.fullName = q ∧
    (before.map fullName).Nodup ∧ q ∈ before.map fullName

theorem latest_append (entries : List Entry) (e : Entry) (q : String) :
    latest (entries ++ [e]) q = if e.fullName = q then some e else latest entries q := by
  by_cases here : e.fullName = q <;> simp [latest, List.filter_append, here]

theorem latest_isSome : (latest entries q).isSome ↔ q ∈ entries.map fullName := by
  simp [latest]

theorem name_of_latestIn (last : latestIn p entries name = some e) : e.name = name := by
  have within := List.mem_of_getLast? last
  exact (of_decide_eq_true (List.mem_filter.1 within).2).2

theorem mem_namesIn : name ∈ namesIn p entries ↔ ∃ e ∈ entries, e.package = p ∧ e.name = name := by
  simp [namesIn, and_assoc]

theorem namesIn_append (p : String) (entries : List Entry) (e : Entry) :
    namesIn p (entries ++ [e]) =
      if e.package = p ∧ e.name ∉ namesIn p entries then namesIn p entries ++ [e.name]
      else namesIn p entries := by
  by_cases here : e.package = p
  · by_cases known : e.name ∈ namesIn p entries
    · simp_all [namesIn, List.eraseDups_append, List.removeAll]
    · simp_all [namesIn, List.eraseDups_append, List.removeAll, List.eraseDups_cons]
  · simp [namesIn, here]

theorem nodup_namesIn (p : String) (entries : List Entry) : (namesIn p entries).Nodup := by
  induction entries using List.reverseRecOn with
  | nil => simp [namesIn]
  | append_singleton entries e ih =>
    rw [namesIn_append]
    split
    · next new => exact List.nodup_append.2 ⟨ih, by simp, by
        rintro name among _ atEnd rfl
        exact new.2 (List.mem_singleton.1 atEnd ▸ among)⟩
    · exact ih

theorem latest_qualified (plain : ∀ e ∈ entries, e.Plain) (plainName : ':' ∉ name.toList) :
    latest entries (qualified p name) = latestIn p entries name := by
  refine congrArg List.getLast? (List.filter_congr fun e among => ?_)
  exact decide_eq_decide.2 (qualified_inj (plain e among) plainName)

theorem FirstRepeated.append (first : FirstRepeated entries q) (e : Entry) :
    FirstRepeated (entries ++ [e]) q := by
  obtain ⟨before, here, after, cut, named, distinct, known⟩ := first
  exact ⟨before, here, after ++ [e], by simp [cut], named, distinct, known⟩

theorem FirstRepeated.not_nodup (first : FirstRepeated entries q) :
    ¬ (entries.map fullName).Nodup := by
  obtain ⟨before, here, after, cut, named, -, known⟩ := first
  rw [cut, List.map_append, List.map_cons, named]
  exact fun distinct => (List.nodup_append.1 distinct).2.2 q known q List.mem_cons_self rfl

/-- Of two places where a name comes again for the first time none is before the other. -/
theorem FirstRepeated.unique {q' : String} (first : FirstRepeated entries q)
    (other : FirstRepeated entries q') : q = q' := by
  obtain ⟨before, here, after, cut, named, distinct, known⟩ := first
  obtain ⟨before', here', after', cut', named', distinct', known'⟩ := other
  rw [cut] at cut'
  rcases List.append_eq_append_iff.1 cut' with ⟨middle, beyond, rest⟩ | ⟨middle, beyond, rest⟩
  · cases middle with
    | nil =>
      obtain ⟨same, -⟩ := List.cons.inj rest
      rw [← named, ← named', same]
    | cons first middle =>
      obtain ⟨same, -⟩ := List.cons.inj rest
      refine absurd distinct' (not_nodup ⟨before, here, middle, ?_, named, distinct, known⟩)
      rw [beyond, same]
  · cases middle with
    | nil =>
      obtain ⟨same, -⟩ := List.cons.inj rest
      rw [← named, ← named', ← same]
    | cons first middle =>
      obtain ⟨same, -⟩ := List.cons.inj rest
      refine absurd distinct (not_nodup ⟨before', here', middle, ?_, named', distinct', known'⟩)
      rw [beyond, same]

end Entry

/-! ## What registering keeps -/

theorem length_setPair {α : Type} (key : String) (a : α) (pairs : List (String × α)) :
    (setPair key a pairs).length =
      if (pairs.lookup key).isSome then pairs.length else pairs.length + 1 := by
  induction pairs with
  | nil => rfl
  | cons pair rest ih =>
    obtain ⟨first, old⟩ := pair
    rw [setPair, lookup_pair_cons]
    by_cases here : first = key
    · simp [here]
    · rw [if_neg here, if_neg (Ne.symm here), List.length_cons, ih]
      split <;> simp

/-- What different names lead to grows by one where it does for one of them. -/
theorem length_flatMap_succ_at {names : List String} (distinct : names.Nodup) {key : String}
    (among : key ∈ names) {f g : String → List String}
    (others : ∀ name, name ≠ key → g name = f name)
    (grown : (g key).length = (f key).length + 1) :
    (names.flatMap g).length = (names.flatMap f).length + 1 := by
  induction names with
  | nil => cases among
  | cons first rest ih =>
    obtain ⟨new, distinct⟩ := List.nodup_cons.1 distinct
    rw [List.flatMap_cons, List.flatMap_cons, List.length_append, List.length_append]
    by_cases here : first = key
    · subst here
      have same : rest.flatMap g = rest.flatMap f := List.flatMap_congr fun name among =>
        others name fun same => new (same ▸ among)
      rw [grown, same]
      omega
    · rw [others first here, ih distinct ((List.mem_cons.1 among).resolve_left (Ne.symm here))]
      omega

namespace Registrations

open Entry

/-- What a registry in the making holds once the entries were registered one after the other. -/
structure Indexes (b : Registrations) (entries : List Entry) : Prop where
  get (q : String) : b.registry.get? q = latest entries q
  listed (p : String) :
    (b.registry.packages.lookup p).getD [] = (namesIn p entries).map (qualified p)
  size (packages : List String) (distinct : packages.Nodup)
    (all : ∀ e ∈ entries, e.package ∈ packages) :
    b.registry.size = (packages.flatMap (namesIn · entries)).length
  clean (none : b.duplicates = []) : (entries.map fullName).Nodup
  repeated (q : String) (first : b.duplicates.head? = some q) : FirstRepeated entries q

variable {b : Registrations} {entries : List Entry} {e : Entry}

theorem Indexes.empty : Indexes {} [] where
  get _ := rfl
  listed _ := rfl
  size packages _ _ := by simp [Registry.size, namesIn, List.map_const']
  clean _ := List.nodup_nil
  repeated _ first := by cases first

/-- A full name is known exactly when its package has its name. -/
theorem Indexes.known_iff (holds : b.Indexes entries)
    (plain : ∀ other ∈ entries ++ [e], other.Plain) :
    (b.registry.get? e.fullName).isSome ↔ e.name ∈ namesIn e.package entries := by
  rw [holds.get, latest_isSome, mem_namesIn, List.mem_map]
  refine exists_congr fun other => and_congr_right fun among => ?_
  exact qualified_inj (plain other (by simp [among])) (plain e (by simp))

theorem Indexes.register_known (holds : b.Indexes entries)
    (plain : ∀ other ∈ entries ++ [e], other.Plain)
    (known : (b.registry.get? e.fullName).isSome) : (b.register e).Indexes (entries ++ [e]) := by
  have there := (holds.known_iff plain).1 known
  have after : b.register e =
      { registry := { b.registry with entries := setPair e.fullName e b.registry.entries },
        duplicates := b.duplicates ++ [e.fullName] } := by
    simp only [register, known, if_true]
  have same (p : String) : namesIn p (entries ++ [e]) = namesIn p entries := by
    rw [namesIn_append, if_neg]
    rintro ⟨rfl, new⟩
    exact new there
  rw [after]
  refine ⟨fun q => ?_, fun p => ?_, fun packages distinct all => ?_, fun none => ?_,
    fun q first => ?_⟩
  · rw [latest_append, ← holds.get, Registry.get?, Registry.get?, lookup_setPair]
    simp only [eq_comm]
  · rw [same]
    exact holds.listed p
  · simp only [same]
    rw [← holds.size packages distinct fun other among => all other (by simp [among])]
    exact (length_setPair ..).trans (if_pos known)
  · simp at none
  · cases before : b.duplicates with
    | nil =>
      obtain rfl : e.fullName = q := by simpa [before] using first
      exact ⟨entries, e, [], rfl, rfl, holds.clean before,
        latest_isSome.1 (holds.get _ ▸ known)⟩
    | cons name rest =>
      obtain rfl : name = q := by simpa [before] using first
      exact (holds.repeated name (by simp [before])).append e

theorem Indexes.register_new (holds : b.Indexes entries)
    (plain : ∀ other ∈ entries ++ [e], other.Plain)
    (new : ¬ (b.registry.get? e.fullName).isSome) : (b.register e).Indexes (entries ++ [e]) := by
  have absent := mt (holds.known_iff plain).2 new
  have after : b.register e =
      { b with registry :=
        { entries := setPair e.fullName e b.registry.entries,
          packages := setPair e.package
            ((namesIn e.package entries).map (qualified e.package) ++ [e.fullName])
            b.registry.packages } } := by
    simp only [register, new, if_false, Bool.false_eq_true, holds.listed]
  rw [after]
  refine ⟨fun q => ?_, fun p => ?_, fun packages distinct all => ?_, fun none => ?_,
    fun q first => ?_⟩
  · rw [latest_append, ← holds.get, Registry.get?, Registry.get?, lookup_setPair]
    simp only [eq_comm]
  · rw [lookup_setPair, namesIn_append]
    by_cases here : p = e.package
    · subst here
      rw [if_pos rfl, if_pos ⟨rfl, absent⟩, List.map_append]
      rfl
    · rw [if_neg here, if_neg fun both => here both.1.symm]
      exact holds.listed p
  · have held := holds.size packages distinct fun other among => all other (by simp [among])
    rw [length_flatMap_succ_at (f := (namesIn · entries)) distinct (all e (by simp)), ← held]
    · exact (length_setPair ..).trans (if_neg new)
    · intro p other
      rw [namesIn_append, if_neg fun both => other both.1.symm]
    · rw [namesIn_append, if_pos ⟨rfl, absent⟩, List.length_append]
      rfl
  · rw [List.map_append, List.map_singleton]
    refine List.nodup_append.2 ⟨holds.clean none, by simp, ?_⟩
    rintro _ among _ atEnd rfl
    rw [List.mem_singleton.1 atEnd, ← latest_isSome, ← holds.get] at among
    exact new among
  · exact (holds.repeated q first).append e

theorem Indexes.register (holds : b.Indexes entries)
    (plain : ∀ other ∈ entries ++ [e], other.Plain) : (b.register e).Indexes (entries ++ [e]) := by
  by_cases known : (b.registry.get? e.fullName).isSome
  · exact holds.register_known plain known
  · exact holds.register_new plain known

/-- Induction on the entries from their end, as the registrations happen. -/
theorem indexes_registerAll (entries : List Entry) (plain : ∀ e ∈ entries, e.Plain) :
    (registerAll {} entries).Indexes entries := by
  induction entries using List.reverseRecOn with
  | nil => exact Indexes.empty
  | append_singleton entries e ih =>
    rw [registerAll, List.foldl_append]
    exact (ih fun other among => plain other (by simp [among])).register plain

/-! ## The answers of the built registry -/

theorem Indexes.package_eq (holds : b.Indexes entries) (plain : ∀ e ∈ entries, e.Plain)
    (p : String) :
    (b.registry.package p).map some = (namesIn p entries).map (latestIn p entries) := by
  have found (name : String) (among : name ∈ namesIn p entries) :
      b.registry.get? (qualified p name) = latestIn p entries name ∧
        (latestIn p entries name).isSome := by
    obtain ⟨e, known, rfl, rfl⟩ := mem_namesIn.1 among
    rw [← latest_qualified plain (plain e known), holds.get]
    exact ⟨rfl, latest_isSome.2 (List.mem_map_of_mem known)⟩
  rw [Registry.package, holds.listed, List.filterMap_map]
  generalize namesIn p entries = names at found
  induction names with
  | nil => rfl
  | cons name rest ih =>
    obtain ⟨same, there⟩ := found name List.mem_cons_self
    obtain ⟨e, is⟩ := Option.isSome_iff_exists.1 there
    rw [List.filterMap_cons_some (show (b.registry.get? ∘ qualified p) name = some e from
      same.trans is), List.map_cons, List.map_cons, ih fun name among =>
        found name (List.mem_cons_of_mem _ among), is]

theorem Indexes.names_package (holds : b.Indexes entries) (plain : ∀ e ∈ entries, e.Plain)
    (p : String) : (b.registry.package p).map Entry.name = namesIn p entries := by
  have listed := holds.package_eq plain p
  have named (name : String) (among : name ∈ namesIn p entries) :
      (latestIn p entries name).map Entry.name = some name := by
    have inside : latestIn p entries name ∈ (b.registry.package p).map some :=
      listed ▸ List.mem_map_of_mem among
    obtain ⟨e, -, last⟩ := List.mem_map.1 inside
    rw [← last, Option.map_some, name_of_latestIn last.symm]
  have there : (namesIn p entries).map (Option.map Entry.name ∘ latestIn p entries) =
      (namesIn p entries).map some := List.map_congr_left named
  have names := congrArg (List.map (Option.map Entry.name)) listed
  rw [List.map_map, List.map_map, there] at names
  refine (List.map_inj_right fun _ _ => Option.some.inj).1 ?_
  rw [List.map_map]
  exact names

/-- A package has no two entries of the same name. -/
theorem nodup_package (entries : List Entry) (plain : ∀ e ∈ entries, e.Plain) (p : String) :
    (((registerAll {} entries).toRegistry.package p).map Entry.name).Nodup := by
  rw [toRegistry, (indexes_registerAll entries plain).names_package plain]
  exact nodup_namesIn p entries

theorem Indexes.built_iff (holds : b.Indexes entries) {r : Registry} :
    toRegistry? b = .ok r ↔ (entries.map fullName).Nodup ∧ r = b.toRegistry := by
  unfold toRegistry?
  cases found : b.duplicates with
  | nil => simpa [holds.clean found, toRegistry] using eq_comm
  | cons name rest =>
    have first := holds.repeated name (by rw [found]; rfl)
    simp [first.not_nodup]

theorem Indexes.refused_iff (holds : b.Indexes entries) {error : RegistryError} :
    toRegistry? b = .error error ↔ ∃ q, error = .duplicate q ∧ FirstRepeated entries q := by
  unfold toRegistry?
  cases found : b.duplicates with
  | nil =>
    refine iff_of_false (by simp) ?_
    rintro ⟨q, -, first⟩
    exact first.not_nodup (holds.clean found)
  | cons name rest =>
    have first := holds.repeated name (by rw [found]; rfl)
    constructor
    · rintro ⟨⟩
      exact ⟨name, rfl, first⟩
    · rintro ⟨q, rfl, other⟩
      rw [first.unique other]

/--
A full name leads to the last entry registered under it.  A package lists one entry for each of its
names, in the order in which the names came first, and each of them is the last one under its name.
The packages together hold as many entries as the registry.  The strict build gives the registry
exactly if the full names are distinct, and else the name whose second registration came first.
-/
theorem views_agree (entries : List Entry) (plain : ∀ e ∈ entries, e.Plain) :
    let b := registerAll {} entries
    (∀ q, b.toRegistry.get? q = latest entries q) ∧
      (∀ p, (b.toRegistry.package p).map some = (namesIn p entries).map (latestIn p entries)) ∧
      (∀ packages : List String, packages.Nodup → (∀ e ∈ entries, e.package ∈ packages) →
        (packages.flatMap b.toRegistry.package).length = b.toRegistry.size) ∧
      (∀ r, toRegistry? b = .ok r ↔ (entries.map fullName).Nodup ∧ r = b.toRegistry) ∧
      ∀ error, toRegistry? b = .error error ↔
        ∃ q, error = .duplicate q ∧ FirstRepeated entries q := by
  have holds := indexes_registerAll entries plain
  refine ⟨holds.get, holds.package_eq plain, fun packages distinct all => ?_,
    fun r => holds.built_iff, fun error => holds.refused_iff⟩
  rw [toRegistry, holds.size packages distinct all, ← List.length_map (f := Entry.name),
    List.map_flatMap]
  simp only [holds.names_package plain]

/-- Free functions called `size`, two of them twice. -/
def sizes : List Entry :=
  [("", 0), ("a", 0), ("a::b", 0), ("a", 1), ("", 1)].map fun (package, arity) =>
    .function ⟨package, "size", arity, fun _ => return []⟩

theorem views_of_sizes : (∀ e ∈ sizes, e.Plain) ∧
    ((registerAll {} sizes).toRegistry.package "a").map some = [sizes[3]?] ∧
    (registerAll {} sizes).toRegistry.get? "size" = sizes[4]? ∧
    (registerAll {} sizes).toRegistry.size = 3 ∧
    toRegistry? (registerAll {} sizes) = .error (.duplicate "a::size") := by
  have plain : ∀ e ∈ sizes, e.Plain := by decide
  obtain ⟨get, package, size, -, refused⟩ := views_agree sizes plain
  refine ⟨plain, (package "a").trans rfl, (get "size").trans rfl, ?_, ?_⟩
  · rw [← size ["", "a", "a::b"] (by decide) (by decide)]
    rfl
  · exact (refused _).2 ⟨_, rfl, sizes.take 3, sizes[3], sizes.drop 4, rfl, rfl, by decide,
      by decide⟩

end Registrations
end ScriptHost
