import ScriptHost.Script.Value
import Std.Data.HashMap

/-!
# Entries

The entries of a table outside its list stand in the order in which their keys first came.  Places
lead from a key to its entry, so that no search is needed; every key has exactly one place.
-/

namespace ScriptHost

structure Entries where
  places : Std.HashMap Value Nat
  pairs : Array (Value × Value)
  /-- The place of a key is that of the one pair with the key. -/
  sound : ∀ (key : Value) (place : Nat),
    places[key]? = some place ↔ ∃ v : Value, pairs[place]? = some (key, v)

namespace Entries

def empty : Entries where
  places := {}
  pairs := #[]
  sound := by simp

instance : Inhabited Entries := ⟨empty⟩

def size (e : Entries) : Nat := e.pairs.size

def place? (e : Entries) (key : Value) : Option Nat := e.places[key]?

def get? (e : Entries) (key : Value) : Option Value :=
  match e.place? key with
  | some place => e.pairs[place]?.map (·.2)
  | none => none

def toList (e : Entries) : List (Value × Value) := e.pairs.toList

/-- Puts a value in the place of a key, or after all other pairs if the key is new. -/
def insert (e : Entries) (key v : Value) : Entries :=
  match found : e.places[key]? with
  | some place =>
    { places := e.places
      pairs := e.pairs.setIfInBounds place (key, v)
      sound := by
        intro other index
        obtain ⟨old, atPlace⟩ := (e.sound key place).1 found
        obtain ⟨inside, atPlace⟩ := Array.getElem?_eq_some_iff.1 atPlace
        rw [e.sound other index, Array.getElem?_setIfInBounds]
        by_cases same : place = index
        · subst same
          simp [inside, atPlace]
        · simp [same] }
  | none =>
    { places := e.places.insert key e.pairs.size
      pairs := e.pairs.push (key, v)
      sound := by
        intro other index
        have absent : ∀ w, e.pairs[index]? ≠ some (key, w) := fun w is => by
          have := (e.sound key index).2 ⟨w, is⟩
          simp [found] at this
        rw [Std.HashMap.getElem?_insert, Array.getElem?_push]
        by_cases same : key = other
        · subst same
          by_cases last : index = e.pairs.size
          · simp [last]
          · simp [last, absent, Ne.symm last]
        · by_cases last : index = e.pairs.size
          · subst last
            have := e.sound other e.pairs.size
            simp_all
          · simp [same, last, e.sound other index] }

/-- A key has a value exactly if some pair says so. -/
theorem get?_eq_some_iff (e : Entries) (key v : Value) :
    e.get? key = some v ↔ ∃ place : Nat, e.pairs[place]? = some (key, v) := by
  unfold get? place?
  constructor
  · intro h
    split at h
    · next place found =>
      obtain ⟨w, atPlace⟩ := (e.sound key place).1 found
      simp only [atPlace, Option.map_some, Option.some.injEq] at h
      exact ⟨place, h ▸ atPlace⟩
    · exact absurd h nofun
  · rintro ⟨place, atPlace⟩
    rw [(e.sound key place).2 ⟨v, atPlace⟩]
    simp [atPlace]

theorem mem_toList_iff (e : Entries) (key v : Value) :
    (key, v) ∈ e.toList ↔ e.get? key = some v := by
  rw [get?_eq_some_iff, toList, List.mem_iff_getElem?]
  simp

/-- Entries are a finite map. -/
theorem get?_insert (e : Entries) (key v other : Value) :
    (e.insert key v).get? other = if key == other then some v else e.get? other := by
  unfold insert
  split
  · next place found =>
    obtain ⟨old, atPlace⟩ := (e.sound key place).1 found
    obtain ⟨inside, -⟩ := Array.getElem?_eq_some_iff.1 atPlace
    simp only [get?, place?]
    by_cases same : key = other
    · subst same
      simp [found, inside]
    · simp only [beq_iff_eq, same, if_false]
      cases there : e.places[other]? with
      | none => rfl
      | some index =>
        have : place ≠ index := fun h => by
          subst h
          obtain ⟨w, atIndex⟩ := (e.sound other place).1 there
          simp_all
        simp [this]
  · next found =>
    simp only [get?, place?, Std.HashMap.getElem?_insert]
    by_cases same : key = other
    · subst same
      simp
    · simp only [beq_iff_eq, same, if_false]
      cases there : e.places[other]? with
      | none => rfl
      | some index =>
        obtain ⟨w, atIndex⟩ := (e.sound other index).1 there
        obtain ⟨inside, -⟩ := Array.getElem?_eq_some_iff.1 atIndex
        simp [Array.getElem?_push, Nat.ne_of_lt inside]

end Entries

end ScriptHost
