/-!
# Arena

A growing row of slots.  An insertion takes the slot that was released last, or a new one at the
end when none is free.
-/

namespace ScriptHost

namespace Arena

variable {α : Type} {entries : List (Option α)} {free : List Nat} {live : Nat}

/-- The free slots are the empty ones, each listed once, and the others are counted. -/
def Accounted (entries : List (Option α)) (free : List Nat) (live : Nat) : Prop :=
  free.Nodup ∧ (∀ index, index ∈ free ↔ entries[index]? = some none) ∧
    live = entries.countP Option.isSome

theorem accounted_empty : Accounted ([] : List (Option α)) [] 0 := by simp [Accounted]

theorem Accounted.refill {index : Nat} (sound : Accounted entries (index :: free) live) (a : α) :
    Accounted (entries.set index (some a)) free (live + 1) := by
  obtain ⟨distinct, slots, rfl⟩ := sound
  obtain ⟨notFree, distinct⟩ := List.nodup_cons.1 distinct
  have empty : entries[index]? = some none := (slots index).1 List.mem_cons_self
  obtain ⟨inside, content⟩ := List.getElem?_eq_some_iff.1 empty
  refine ⟨distinct, fun other => ?_, by simp [List.countP_set, inside, content]⟩
  by_cases same : index = other
  · subst same
    simp [notFree, inside]
  · rw [List.getElem?_set_ne same, ← slots other, List.mem_cons]
    simp [Ne.symm same]

theorem Accounted.extend (sound : Accounted entries [] live) (a : α) :
    Accounted (entries ++ [some a]) [] (live + 1) := by
  obtain ⟨distinct, slots, rfl⟩ := sound
  refine ⟨distinct, fun other => ?_, by simp⟩
  simp only [List.not_mem_nil, false_iff, List.getElem?_append]
  split
  · exact fun empty => nomatch (slots other).2 empty
  · cases other - entries.length <;> simp

theorem Accounted.vacate {index : Nat} {a : α} (sound : Accounted entries free live)
    (full : entries[index]? = some (some a)) :
    Accounted (entries.set index none) (index :: free) (live - 1) := by
  obtain ⟨distinct, slots, rfl⟩ := sound
  obtain ⟨inside, content⟩ := List.getElem?_eq_some_iff.1 full
  refine ⟨List.nodup_cons.2 ⟨fun free => ?_, distinct⟩, fun other => ?_, ?_⟩
  · rw [slots, full] at free
    cases free
  · by_cases same : index = other
    · subst same
      simp [inside]
    · rw [List.getElem?_set_ne same, ← slots other, List.mem_cons]
      simp [Ne.symm same]
  · simp [List.countP_set, inside, content]

end Arena

structure Arena (α : Type) where
  entries : List (Option α)
  /-- Indices of empty slots, the one released last in front. -/
  free : List Nat
  live : Nat
  sound : Arena.Accounted entries free live

namespace Arena

variable {α : Type}

def empty : Arena α := ⟨[], [], 0, accounted_empty⟩

instance : Inhabited (Arena α) := ⟨empty⟩

def get? (s : Arena α) (index : Nat) : Option α := s.entries[index]?.join

/-- Fills a slot and tells its index. -/
def insert (s : Arena α) (a : α) : Nat × Arena α :=
  match s with
  | ⟨entries, index :: free, live, sound⟩ =>
    (index, ⟨entries.set index (some a), free, live + 1, sound.refill a⟩)
  | ⟨entries, [], live, sound⟩ =>
    (entries.length, ⟨entries ++ [some a], [], live + 1, sound.extend a⟩)

/-- Empties a slot; nothing happens if it is empty already. -/
def release (s : Arena α) (index : Nat) : Arena α :=
  match full : s.entries[index]? with
  | some (some _) => ⟨s.entries.set index none, index :: s.free, s.live - 1, s.sound.vacate full⟩
  | _ => s

def isEmpty (s : Arena α) : Bool := s.live == 0

/-- An insertion takes a slot that is empty. -/
theorem insert_fresh (s : Arena α) (a : α) : s.get? (s.insert a).1 = none := by
  obtain ⟨entries, _ | ⟨index, free⟩, live, sound⟩ := s
  · simp [get?, insert]
  · have empty : entries[index]? = some none := (sound.2.1 index).1 List.mem_cons_self
    simp [get?, insert, empty]

theorem get?_insert_self (s : Arena α) (a : α) : (s.insert a).2.get? (s.insert a).1 = some a := by
  obtain ⟨entries, _ | ⟨slot, free⟩, live, sound⟩ := s
  · simp [get?, insert]
  · have empty : entries[slot]? = some none := (sound.2.1 slot).1 List.mem_cons_self
    obtain ⟨inside, -⟩ := List.getElem?_eq_some_iff.1 empty
    simp [get?, insert, inside]

/-- An insertion leaves the other slots alone. -/
theorem get?_insert_of_ne {s : Arena α} {a : α} {index : Nat} (other : index ≠ (s.insert a).1) :
    (s.insert a).2.get? index = s.get? index := by
  obtain ⟨entries, _ | ⟨slot, free⟩, live, sound⟩ := s
  · simp only [get?, insert] at other ⊢
    rcases Nat.lt_or_gt_of_ne other with inside | beyond
    · rw [List.getElem?_append_left inside]
    · have last : (entries ++ [some a]).length ≤ index := by
        rw [List.length_append]
        exact beyond
      rw [List.getElem?_eq_none last, List.getElem?_eq_none (Nat.le_of_lt beyond)]
  · simp only [get?, insert] at other ⊢
    rw [List.getElem?_set_ne (Ne.symm other)]

/-- A slot that was given back is empty, whatever it was before. -/
theorem get?_release_self (s : Arena α) (index : Nat) : (s.release index).get? index = none := by
  unfold release
  split
  · next full =>
    obtain ⟨inside, -⟩ := List.getElem?_eq_some_iff.1 full
    simp [get?, inside]
  · next notFull =>
    rw [get?, Option.join_eq_none_iff]
    match found : s.entries[index]? with
    | none => exact .inl rfl
    | some none => exact .inr rfl
    | some (some a) => exact (notFull a found).elim

/-- Giving a slot back leaves the other slots alone. -/
theorem get?_release_of_ne {s : Arena α} {index other : Nat} (apart : other ≠ index) :
    (s.release index).get? other = s.get? other := by
  unfold release
  split
  · rw [get?, get?, List.getElem?_set_ne (Ne.symm apart)]
  · rfl

end Arena

end ScriptHost
