/-!
# Parts of texts

A text falls into parts at each separator.  The parts hold no separator, and a text cut at a
separator has the parts before it and those after it.
-/

namespace ScriptHost

/-- The parts of a list between separators, in order; there is always one. -/
def splitList {α : Type} [DecidableEq α] (separator : α) : List α → List (List α)
  | [] => [[]]
  | a :: rest =>
    if a = separator then [] :: splitList separator rest
    else (splitList separator rest).modifyHead (a :: ·)

section

variable {α : Type} [DecidableEq α] (separator : α)

theorem splitList_ne_nil (l : List α) : splitList separator l ≠ [] := by
  induction l with
  | nil => simp [splitList]
  | cons a rest ih =>
    unfold splitList
    split
    · simp
    · simpa using ih

theorem not_mem_of_mem_splitList {l part : List α} (h : part ∈ splitList separator l) :
    separator ∉ part := by
  induction l generalizing part with
  | nil => simp_all [splitList]
  | cons a rest ih =>
    unfold splitList at h
    split at h
    · rcases List.mem_cons.mp h with rfl | h
      · exact List.not_mem_nil
      · exact ih h
    · rename_i different
      cases found : splitList separator rest with
      | nil => simp [found] at h
      | cons first others =>
        rw [found] at h ih
        rcases List.mem_cons.mp h with rfl | h
        · have := ih List.mem_cons_self
          simp_all [eq_comm]
        · exact ih (List.mem_cons_of_mem _ h)

/-- The parts before a separator and those after it. -/
theorem splitList_append_separator (first rest : List α) :
    splitList separator (first ++ separator :: rest) =
      splitList separator first ++ splitList separator rest := by
  induction first with
  | nil => rw [List.nil_append, splitList.eq_2, if_pos rfl, splitList.eq_1, List.singleton_append]
  | cons a first ih =>
    rw [List.cons_append, splitList, splitList, ih]
    split
    · rfl
    · cases parts : splitList separator first with
      | nil => exact absurd parts (splitList_ne_nil separator first)
      | cons part others => rfl

theorem splitList_of_not_mem {l : List α} (absent : separator ∉ l) :
    splitList separator l = [l] := by
  induction l with
  | nil => rfl
  | cons a rest ih =>
    rw [List.mem_cons, not_or] at absent
    obtain ⟨other, absent⟩ := absent
    rw [splitList, if_neg (Ne.symm other), ih absent]
    rfl

end

/-- The parts of a text between separators, in order. -/
def splitText (separator : Char) (text : String) : List String :=
  (splitList separator text.toList).map String.ofList

theorem splitText_append (separator : Char) (first rest : String) :
    splitText separator (first ++ separator.toString ++ rest) =
      splitText separator first ++ splitText separator rest := by
  have spelled : (first ++ separator.toString ++ rest).toList =
      first.toList ++ separator :: rest.toList := by simp
  rw [splitText, spelled, splitList_append_separator, List.map_append, splitText, splitText]

theorem splitText_of_not_mem {separator : Char} {text : String}
    (absent : separator ∉ text.toList) : splitText separator text = [text] := by
  rw [splitText, splitList_of_not_mem separator absent, List.map_singleton, String.ofList_toList]

/-- What stands before and after the first occurrence of a mark. -/
def cut? (mark : List Char) : List Char → Option (List Char × List Char)
  | [] => none
  | c :: rest =>
    if mark.isPrefixOf (c :: rest) then some ([], (c :: rest).drop mark.length)
    else (cut? mark rest).map fun (before, after) => (c :: before, after)

/-- The text before a suffix. -/
def stripSuffix? (suffix text : String) : Option String :=
  if suffix.toList.isSuffixOf text.toList then
    some (String.ofList (text.toList.take (text.length - suffix.length)))
  else none

/-- Every occurrence of a pattern replaced, from left to right and without overlap. -/
def replaceAll (pattern replacement text : List Char) : List Char :=
  go text 0
where
  /-- `skip` characters of the text belong to an occurrence already replaced. -/
  go : List Char → Nat → List Char
    | [], _ => []
    | _ :: rest, skip + 1 => go rest skip
    | c :: rest, 0 =>
      if pattern.isPrefixOf (c :: rest) then replacement ++ go rest (pattern.length - 1)
      else c :: go rest 0

def replaceText (pattern replacement text : String) : String :=
  String.ofList (replaceAll pattern.toList replacement.toList text.toList)

end ScriptHost
