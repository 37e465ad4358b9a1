import Mathlib.Data.Finmap
import Mathlib.Order.Bounds.Basic
import ScriptHost.Boundary.Arena

/-!
# Runs of an arena

A ledger is an arena with what was done to it: which slots insertions chose, and which indices were
given back, whether they named a filled slot or not.  To whoever holds the indices, an arena is a
finite map that chooses the keys of its entries among those that it does not have.  The row behind
the map is accounted for as well: it is as long as the map was large when it was largest, and every
slot that the map has no entry for is listed as free once.
-/

namespace ScriptHost

namespace Arena

variable {α : Type} {s : Arena α} {index : Nat}

/-! ## Single calls -/

theorem get?_insert (s : Arena α) (a : α) (index : Nat) :
    (s.insert a).2.get? index = if index = (s.insert a).1 then some a else s.get? index := by
  split
  · next same => rw [same, get?_insert_self]
  · next other => rw [get?_insert_of_ne other]

theorem get?_release (s : Arena α) (index other : Nat) :
    (s.release index).get? other = if other = index then none else s.get? other := by
  split
  · next same => rw [same, get?_release_self]
  · next apart => rw [get?_release_of_ne apart]

theorem mem_free_iff (s : Arena α) (index : Nat) :
    index ∈ s.free ↔ index < s.entries.length ∧ s.get? index = none := by
  rw [s.sound.2.1, List.getElem?_eq_some_iff, get?]
  constructor
  · rintro ⟨inside, empty⟩
    exact ⟨inside, by simp [inside, empty]⟩
  · rintro ⟨inside, empty⟩
    exact ⟨inside, by simpa [inside] using empty⟩

theorem live_le_length (s : Arena α) : s.live ≤ s.entries.length := by
  rw [s.sound.2.2]
  exact List.countP_le_length

theorem live_insert (s : Arena α) (a : α) : (s.insert a).2.live = s.live + 1 := by
  obtain ⟨entries, _ | ⟨slot, free⟩, live, sound⟩ := s <;> rfl

/-- Where no slot is free, all of them are filled. -/
theorem live_of_full (full : s.free = []) : s.live = s.entries.length := by
  rw [s.sound.2.2, List.countP_eq_length]
  intro entry among
  obtain ⟨index, found⟩ := List.getElem?_of_mem among
  cases entry with
  | some a => rfl
  | none =>
    have free : index ∈ s.free := (s.sound.2.1 index).2 found
    rw [full] at free
    cases free

/-- The row grows only when it has to hold more than it has slots. -/
theorem length_insert (s : Arena α) (a : α) :
    (s.insert a).2.entries.length = max (s.insert a).2.live s.entries.length := by
  have fits := (s.insert a).2.live_le_length
  match free : s.free with
  | [] =>
    have grown : (s.insert a).2.entries.length = s.entries.length + 1 := by
      obtain ⟨entries, _, live, sound⟩ := s
      cases free
      exact List.length_append
    rw [live_insert, live_of_full free, grown, max_eq_left (Nat.le_succ _)]
  | slot :: rest =>
    have same : (s.insert a).2.entries.length = s.entries.length := by
      obtain ⟨entries, _, live, sound⟩ := s
      cases free
      exact List.length_set
    rw [same] at fits ⊢
    exact (max_eq_right fits).symm

theorem length_release (s : Arena α) (index : Nat) :
    (s.release index).entries.length = s.entries.length := by
  unfold release
  split
  · exact List.length_set
  · rfl

/-! ## Ledgers -/

/-- What can be asked of an arena. -/
inductive Call (α : Type) where
  | insert (a : α)
  /-- Any index may be given back, also one whose slot is empty or does not exist. -/
  | release (index : Nat)

/-- What a call did. -/
inductive Event (α : Type) where
  | inserted (index : Nat) (a : α)
  | released (index : Nat)

/-- The slot that an event is about. -/
def Event.slot : Event α → Nat
  | .inserted index _ => index
  | .released index => index

/-- An arena with what was done to it, the last event at the end. -/
structure Ledger (α : Type) where
  events : List (Event α)
  arena : Arena α

def Ledger.call (l : Ledger α) : Call α → Ledger α
  | .insert a => ⟨l.events ++ [.inserted (l.arena.insert a).1 a], (l.arena.insert a).2⟩
  | .release index => ⟨l.events ++ [.released index], l.arena.release index⟩

/-- The ledger of an arena that was empty before some calls. -/
def after (calls : List (Call α)) : Ledger α := calls.foldl Ledger.call ⟨[], .empty⟩

theorem after_concat (calls : List (Call α)) (c : Call α) :
    after (calls ++ [c]) = (after calls).call c := List.foldl_append

/-! ## Finite maps that choose their keys -/

/--
The events lead from the empty map to this one.  An insertion adds a key that was not there before,
and leaves open which; a release takes its key away, if it is there.
-/
inductive Leads : List (Event α) → Finmap (fun _ : Nat => α) → Prop where
  | start : Leads [] ∅
  | inserted {events m} (led : Leads events m) {index : Nat} (fresh : index ∉ m) (a : α) :
      Leads (events ++ [.inserted index a]) (m.insert index a)
  | released {events m} (led : Leads events m) (index : Nat) :
      Leads (events ++ [.released index]) (m.erase index)

/-- The last event about a slot put this value there. -/
def Stands (index : Nat) (a : α) (events : List (Event α)) : Prop :=
  ∃ earlier later, events = earlier ++ .inserted index a :: later ∧
    ∀ event ∈ later, event.slot ≠ index

theorem not_stands_nil (index : Nat) (a : α) : ¬ Stands index a [] := by
  rintro ⟨earlier, later, same, -⟩
  exact List.append_ne_nil_of_right_ne_nil earlier (List.cons_ne_nil _ later) same.symm

theorem stands_concat (index : Nat) (a : α) (events : List (Event α)) (last : Event α) :
    Stands index a (events ++ [last]) ↔
      last = .inserted index a ∨ last.slot ≠ index ∧ Stands index a events := by
  constructor
  · rintro ⟨earlier, later, same, untouched⟩
    rcases List.eq_nil_or_concat' later with rfl | ⟨before, final, rfl⟩
    · exact .inl (List.cons.inj (List.append_inj' same rfl).2).1
    · rw [← List.cons_append, ← List.append_assoc] at same
      obtain ⟨rfl, ends⟩ := List.append_inj' same rfl
      cases ends
      exact .inr ⟨untouched last (by simp), earlier, before, rfl,
        fun event among => untouched event (List.mem_append_left _ among)⟩
  · rintro (rfl | ⟨apart, earlier, later, rfl, untouched⟩)
    · exact ⟨events, [], rfl, nofun⟩
    · refine ⟨earlier, later ++ [last], by simp, fun event among => ?_⟩
      rcases List.mem_append.1 among with inner | final
      · exact untouched event inner
      · exact List.mem_singleton.1 final ▸ apart

/-- The map has the entries that stand. -/
theorem Leads.lookup_eq_some_iff {events : List (Event α)} {m : Finmap fun _ : Nat => α}
    (led : Leads events m) (index : Nat) (a : α) :
    m.lookup index = some a ↔ Stands index a events := by
  induction led with
  | start => simp [not_stands_nil]
  | @inserted events m led slot fresh b ih =>
    rw [stands_concat, ← ih]
    by_cases same : index = slot
    · subst same
      simp [Event.slot, Finmap.lookup_insert]
    · rw [Finmap.lookup_insert_of_ne _ same]
      simp [Event.slot, Ne.symm same]
  | @released events m led slot ih =>
    rw [stands_concat, ← ih]
    by_cases same : index = slot
    · subst same
      simp [Event.slot]
    · rw [Finmap.lookup_erase_ne same]
      simp [Event.slot, Ne.symm same]

section

variable {m : Finmap fun _ : Nat => α} (same : ∀ index, s.get? index = m.lookup index)

include same

theorem insert_notMem (a : α) : (s.insert a).1 ∉ m := by
  rw [← Finmap.lookup_eq_none, ← same, insert_fresh]

theorem live_eq_card : s.live = m.keys.card := by
  have keys : m.keys = (s.entries.findIdxs Option.isSome).toFinset := by
    ext index
    rw [Finmap.mem_keys, ← Finmap.lookup_isSome, ← same, List.mem_toFinset,
      List.mem_findIdxs_iff_exists_getElem_pos, get?]
    by_cases inside : index < s.entries.length <;> simp [inside]
  rw [keys, List.toFinset_card_of_nodup List.nodup_findIdxs, List.length_findIdxs, s.sound.2.2]

/-- The slots without an entry in the map are listed as free once, and nothing else is. -/
theorem count_free (index : Nat) :
    s.free.count index = if index < s.entries.length ∧ index ∉ m then 1 else 0 := by
  rw [s.sound.1.count]
  simp only [mem_free_iff, same, Finmap.lookup_eq_none]

end

/-- A call does to the map what it does to the arena. -/
theorem Ledger.call_leads {l : Ledger α} {m : Finmap fun _ : Nat => α} (led : Leads l.events m)
    (same : ∀ index, l.arena.get? index = m.lookup index) (c : Call α) :
    ∃ n, Leads (l.call c).events n ∧ ∀ index, (l.call c).arena.get? index = n.lookup index := by
  cases c with
  | insert a =>
    refine ⟨_, led.inserted (insert_notMem same a) a, fun index => ?_⟩
    rw [call, get?_insert]
    split
    · next here => rw [here, Finmap.lookup_insert]
    · next apart => rw [Finmap.lookup_insert_of_ne _ apart, same]
  | release slot =>
    refine ⟨_, led.released slot, fun index => ?_⟩
    rw [call, get?_release]
    split
    · next here => rw [here, Finmap.lookup_erase]
    · next apart => rw [Finmap.lookup_erase_ne apart, same]

/-- A ledger grows at its end, so the induction takes the last call off. -/
theorem after_leads (calls : List (Call α)) :
    ∃ m, Leads (after calls).events m ∧
      ∀ index, (after calls).arena.get? index = m.lookup index := by
  induction calls using List.reverseRecOn with
  | nil => exact ⟨∅, .start, fun _ => rfl⟩
  | append_singleton calls c ih =>
    obtain ⟨m, led, same⟩ := ih
    rw [after_concat]
    exact Ledger.call_leads led same c

/-! ## The length of the row -/

/-- How many slots were live before, between and after the calls. -/
def levels (calls : List (Call α)) : Set Nat :=
  (fun before => (after before).arena.live) '' {before | before <+: calls}

-- `insert` alone is that of arenas here.
theorem levels_concat (calls : List (Call α)) (c : Call α) :
    levels (calls ++ [c]) = Insert.insert (after (calls ++ [c])).arena.live (levels calls) := by
  have times : {before | before <+: calls ++ [c]} =
      Insert.insert (calls ++ [c]) {before | before <+: calls} := by
    ext before
    exact List.prefix_concat_iff
  rw [levels, times, Set.image_insert_eq, levels]

theorem Ledger.length_call (l : Ledger α) (c : Call α) :
    (l.call c).arena.entries.length = max (l.call c).arena.live l.arena.entries.length := by
  cases c with
  | insert a => exact length_insert l.arena a
  | release index =>
    have fits := (l.arena.release index).live_le_length
    rw [length_release] at fits
    exact (length_release l.arena index).trans (max_eq_right fits).symm

theorem isGreatest_levels (calls : List (Call α)) :
    IsGreatest (levels calls) (after calls).arena.entries.length := by
  induction calls using List.reverseRecOn with
  | nil =>
    have only : {before : List (Call α) | before <+: []} = {[]} := by
      ext before
      exact List.prefix_nil
    rw [levels, only, Set.image_singleton]
    exact isGreatest_singleton
  | append_singleton calls c ih =>
    rw [levels_concat, after_concat, Ledger.length_call]
    exact ih.insert _

/-! ## Whole runs -/

/--
After any calls an arena is a finite map that chose fresh keys: a slot has the value of the last
insertion that was told its index, unless that index was given back since.  The next insertion is
told an index that the map does not have.  The live slots are counted, the others are listed as free
once each, and the row is as long as the largest number of slots that were live at one time.
-/
theorem after_refines_map (calls : List (Call α)) :
    let s := (after calls).arena
    ∃ m : Finmap fun _ : Nat => α, Leads (after calls).events m ∧
      (∀ index, s.get? index = m.lookup index) ∧
      (∀ index a, s.get? index = some a ↔ Stands index a (after calls).events) ∧
      (∀ a, (s.insert a).1 ∉ m) ∧
      s.live = m.keys.card ∧
      (∀ index, s.free.count index = if index < s.entries.length ∧ index ∉ m then 1 else 0) ∧
      IsGreatest (levels calls) s.entries.length := by
  intro s
  obtain ⟨m, led, same⟩ := after_leads calls
  refine ⟨m, led, same, fun index a => ?_, insert_notMem same, live_eq_card same, count_free same,
    isGreatest_levels calls⟩
  rw [same, led.lookup_eq_some_iff]

/-- A slot is given back twice, and one that does not exist; then two values come. -/
def givenBackTwice : List (Call Char) :=
  [.insert 'a', .insert 'b', .release 0, .release 0, .release 7, .insert 'c', .insert 'd']

/-- The slot is used again once, for the first value that comes. -/
theorem after_refines_map_twice :
    (after givenBackTwice).arena.get? 0 = some 'c' ∧
      (after givenBackTwice).arena.get? 2 = some 'd' ∧
        (after givenBackTwice).arena.free.count 0 = 0 ∧ IsGreatest (levels givenBackTwice) 3 := by
  obtain ⟨m, -, same, stands, -, -, free, greatest⟩ := after_refines_map givenBackTwice
  have first : (after givenBackTwice).arena.get? 0 = some 'c' :=
    (stands 0 'c').2 ⟨[.inserted 0 'a', .inserted 1 'b', .released 0, .released 0, .released 7],
      [.inserted 2 'd'], rfl, by simp [Event.slot]⟩
  have last : (after givenBackTwice).arena.get? 2 = some 'd' :=
    (stands 2 'd').2 ⟨[.inserted 0 'a', .inserted 1 'b', .released 0, .released 0, .released 7,
      .inserted 0 'c'], [], rfl, nofun⟩
  have there : 0 ∈ m := Finmap.mem_iff.2 ⟨'c', by rw [← same, first]⟩
  exact ⟨first, last, by simp [free, there], greatest⟩

end Arena

end ScriptHost
