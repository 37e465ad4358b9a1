import Mathlib.Logic.Relation
import ScriptHost.Proofs.Marshalling

/-!
# Texts without an end

The text of an object shows its public fields, and with them the objects that these lead to, through
pointers, lists and maps.  It ends unless an object is shown that leads back to itself.  The search
for it goes through as many objects as the heap has; a deeper one finds nothing more.
-/

namespace ScriptHost

namespace ObjectId

open Relation

/-- So many steps lead on from an object. -/
def Walks (step : ObjectId → ObjectId → Prop) : Nat → ObjectId → Prop
  | 0, _ => True
  | length + 1, o => ∃ p, step o p ∧ Walks step length p

/-- Steps lead from an object to one that leads back to itself. -/
def Loops (step : ObjectId → ObjectId → Prop) (o : ObjectId) : Prop :=
  ∃ p, ReflTransGen step o p ∧ TransGen step p p

section

variable {step : ObjectId → ObjectId → Prop} {o p : ObjectId} {length : Nat}

theorem Loops.head (first : step o p) (loops : Loops step p) : Loops step o := by
  obtain ⟨q, way, back⟩ := loops
  exact ⟨q, .head first way, back⟩

/-- Before a circle, and on it, there is always a next object. -/
theorem Loops.next (loops : Loops step o) : ∃ p, step o p ∧ Loops step p := by
  obtain ⟨q, way, back⟩ := loops
  obtain ⟨p, first, rest⟩ := TransGen.head'_iff.1 (TransGen.trans_right way back)
  exact ⟨p, first, q, rest, back⟩

/-- Where a circle is reached, ways of any length lead on. -/
theorem Loops.walks (loops : Loops step o) (length : Nat) : Walks step length o := by
  induction length generalizing o with
  | zero => trivial
  | succ length ih =>
    obtain ⟨p, first, loops⟩ := loops.next
    exact ⟨p, first, ih loops⟩

theorem Loops.mono {other : ObjectId → ObjectId → Prop} (wider : ∀ a b, step a b → other a b)
    (loops : Loops step o) : Loops other o := by
  obtain ⟨p, way, back⟩ := loops
  exact ⟨p, ReflTransGen.mono wider _ _ way, TransGen.mono wider _ _ back⟩

theorem Walks.shorter {less : Nat} (walks : Walks step length o) (le : less ≤ length) :
    Walks step less o := by
  induction less generalizing length o with
  | zero => trivial
  | succ less ih =>
    obtain ⟨length, rfl⟩ : ∃ l, length = l + 1 := ⟨length - 1, by omega⟩
    obtain ⟨p, first, rest⟩ := walks
    exact ⟨p, first, ih rest (by omega)⟩

/--
A way through as many objects as a heap has comes to one of them again: the objects passed are
different from each other, and there is no other one left.
-/
theorem Walks.loops_of_passed {base : Objects} {passed : List ObjectId}
    (closed : ∀ a b, step a b → b.index < base.size) (inside : o.index < base.size)
    (distinct : passed.Nodup) (within : ∀ p ∈ passed, p.index < base.size)
    (before : ∀ p ∈ passed, TransGen step p o) (long : base.size ≤ length + passed.length)
    (walks : Walks step length o) : Loops step o := by
  induction length generalizing passed o with
  | zero =>
    by_cases again : o ∈ passed
    · exact ⟨o, .refl, before o again⟩
    · have short := Crossing.length_le_of_inside (List.nodup_cons.2 ⟨again, distinct⟩)
        (List.forall_mem_cons.2 ⟨inside, within⟩)
      rw [List.length_cons] at short
      omega
  | succ length ih =>
    by_cases again : o ∈ passed
    · exact ⟨o, .refl, before o again⟩
    · obtain ⟨p, first, rest⟩ := walks
      refine .head first (ih (closed o p first)
        (List.nodup_cons.2 ⟨again, distinct⟩) (List.forall_mem_cons.2 ⟨inside, within⟩) ?_ ?_ rest)
      · exact List.forall_mem_cons.2
          ⟨.single first, fun q isPassed => (before q isPassed).tail first⟩
      · rw [List.length_cons]
        omega

theorem Walks.loops {base : Objects} (closed : ∀ a b, step a b → b.index < base.size)
    (inside : o.index < base.size) (walks : Walks step base.size o) : Loops step o :=
  walks.loops_of_passed closed inside .nil (List.forall_mem_nil _) (List.forall_mem_nil _)
    (Nat.le_refl _)

end

end ObjectId

/-- The objects that a value leads to at once, as a structure or through a pointer. -/
inductive HostValue.Mentions : HostValue → ObjectId → Prop where
  | item {items : List HostValue} {item : HostValue} {o : ObjectId} (inside : item ∈ items)
      (mentions : HostValue.Mentions item o) : HostValue.Mentions (.list items) o
  | key {pairs : List (HostValue × HostValue)} {pair : HostValue × HostValue} {o : ObjectId}
      (inside : pair ∈ pairs) (mentions : HostValue.Mentions pair.1 o) :
      HostValue.Mentions (.map pairs) o
  | pair {pairs : List (HostValue × HostValue)} {pair : HostValue × HostValue} {o : ObjectId}
      (inside : pair ∈ pairs) (mentions : HostValue.Mentions pair.2 o) :
      HostValue.Mentions (.map pairs) o
  | struct (o : ObjectId) : HostValue.Mentions (.struct o) o
  | ptr (o : ObjectId) : HostValue.Mentions (.ptr (some o)) o

/-- The objects that a stored value leads to at once; records show their public fields. -/
inductive Datum.Mentions : Datum → ObjectId → Prop where
  | object (o : ObjectId) : Datum.Mentions (.object o) o
  | any {v : HostValue} {o : ObjectId} (mentions : v.Mentions o) : Datum.Mentions (.any v) o
  | record {shape : Shape} {fields : List Datum} {entry : String × Datum} {o : ObjectId}
      (inside : entry ∈ Instance.shown shape.fields fields) (mentions : Datum.Mentions entry.2 o) :
      Datum.Mentions (.record shape fields) o
  | present {content : Datum} {o : ObjectId} (mentions : Datum.Mentions content o) :
      Datum.Mentions (.present content) o
  | item {items : List Datum} {item : Datum} {o : ObjectId} (inside : item ∈ items)
      (mentions : Datum.Mentions item o) : Datum.Mentions (.list items) o
  | entry {entries : List (String × Datum)} {entry : String × Datum} {o : ObjectId}
      (inside : entry ∈ entries) (mentions : Datum.Mentions entry.2 o) :
      Datum.Mentions (.map entries) o

namespace Render

/-- A computation in two parts is missing if one of them is. -/
theorem bind_eq_none {α β : Type} {a : Option α} {f : α → Option β} {lost : Prop}
    (rest : ∀ x, f x = none ↔ lost) : (a >>= f) = none ↔ a = none ∨ lost := by
  cases a with
  | none => simp
  | some x => simpa using rest x

theorem bind_pure_eq_none {α β : Type} {a : Option α} {g : α → β} :
    (do let x ← a; return g x) = none ↔ a = none := by
  cases a <;> simp

section

variable {f : ObjectId → Option String}

/-- Some object that a value leads to has no text. -/
def Loses (f : ObjectId → Option String) (mentions : ObjectId → Prop) : Prop :=
  ∃ o, mentions o ∧ f o = none

mutual

/-- A value has no text exactly if an object that it leads to has none. -/
theorem value_eq_none : ∀ v : HostValue, value f v = none ↔ Loses f v.Mentions
  | .nil | .bool _ | .int _ | .float _ | .str _ | .ptr none | .foreign _ => by
    simp only [value, reduceCtorEq, false_iff]
    rintro ⟨o, ⟨⟩, -⟩
  | .list items => by
    rw [value, bind_pure_eq_none, values_eq_none items]
    constructor
    · rintro ⟨item, inside, o, mentions, lost⟩
      exact ⟨o, .item inside mentions, lost⟩
    · rintro ⟨o, mentions, lost⟩
      cases mentions with
      | item inside mentions => exact ⟨_, inside, o, mentions, lost⟩
  | .map pairs => by
    rw [value, bind_pure_eq_none, valuePairs_eq_none pairs]
    constructor
    · rintro ⟨pair, inside, ⟨o, mentions, lost⟩ | ⟨o, mentions, lost⟩⟩
      · exact ⟨o, .key inside mentions, lost⟩
      · exact ⟨o, .pair inside mentions, lost⟩
    · rintro ⟨o, mentions, lost⟩
      cases mentions with
      | key inside mentions => exact ⟨_, inside, .inl ⟨o, mentions, lost⟩⟩
      | pair inside mentions => exact ⟨_, inside, .inr ⟨o, mentions, lost⟩⟩
  | .struct o => by
    rw [value]
    constructor
    · exact fun lost => ⟨o, .struct o, lost⟩
    · rintro ⟨_, ⟨⟩, lost⟩
      exact lost
  | .ptr (some o) => by
    rw [value, bind_pure_eq_none]
    constructor
    · exact fun lost => ⟨o, .ptr o, lost⟩
    · rintro ⟨_, ⟨⟩, lost⟩
      exact lost

theorem values_eq_none : ∀ items : List HostValue,
    values f items = none ↔ ∃ item ∈ items, Loses f item.Mentions
  | [] => by simp [values]
  | item :: rest => by
    rw [values, bind_eq_none fun _ => bind_pure_eq_none, value_eq_none item,
      values_eq_none rest, List.exists_mem_cons_iff]

theorem valuePairs_eq_none : ∀ pairs : List (HostValue × HostValue),
    valuePairs f pairs = none ↔
      ∃ pair ∈ pairs, Loses f pair.1.Mentions ∨ Loses f pair.2.Mentions
  | [] => by simp [valuePairs]
  | (key, item) :: rest => by
    rw [valuePairs, bind_eq_none fun _ => bind_eq_none fun _ => bind_pure_eq_none,
      value_eq_none key, value_eq_none item, valuePairs_eq_none rest,
      List.exists_mem_cons_iff, or_assoc]

end

mutual

/-- A stored value has no text exactly if an object that it leads to has none. -/
theorem datum_eq_none : ∀ d : Datum, datum f d = none ↔ Loses f d.Mentions
  | .bool _ | .int _ | .size _ | .float _ | .text _ | .absent => by
    simp only [datum, reduceCtorEq, false_iff]
    rintro ⟨o, ⟨⟩, -⟩
  | .object o => by
    rw [datum, bind_pure_eq_none]
    constructor
    · exact fun lost => ⟨o, .object o, lost⟩
    · rintro ⟨_, ⟨⟩, lost⟩
      exact lost
  | .any v => by
    rw [datum, value_eq_none v]
    constructor
    · rintro ⟨o, mentions, lost⟩
      exact ⟨o, .any mentions, lost⟩
    · rintro ⟨o, mentions, lost⟩
      cases mentions with
      | any mentions => exact ⟨o, mentions, lost⟩
  | .record shape content => by
    rw [datum, bind_pure_eq_none, fields_eq_none shape.fields content]
    constructor
    · rintro ⟨entry, inside, o, mentions, lost⟩
      exact ⟨o, .record inside mentions, lost⟩
    · rintro ⟨o, mentions, lost⟩
      cases mentions with
      | record inside mentions => exact ⟨_, inside, o, mentions, lost⟩
  | .present content => by
    rw [datum, datum_eq_none content]
    constructor
    · rintro ⟨o, mentions, lost⟩
      exact ⟨o, .present mentions, lost⟩
    · rintro ⟨o, mentions, lost⟩
      cases mentions with
      | present mentions => exact ⟨o, mentions, lost⟩
  | .list items => by
    rw [datum, bind_pure_eq_none, data_eq_none items]
    constructor
    · rintro ⟨item, inside, o, mentions, lost⟩
      exact ⟨o, .item inside mentions, lost⟩
    · rintro ⟨o, mentions, lost⟩
      cases mentions with
      | item inside mentions => exact ⟨_, inside, o, mentions, lost⟩
  | .map items => by
    rw [datum, bind_pure_eq_none, entries_eq_none items]
    constructor
    · rintro ⟨entry, inside, o, mentions, lost⟩
      exact ⟨o, .entry inside mentions, lost⟩
    · rintro ⟨o, mentions, lost⟩
      cases mentions with
      | entry inside mentions => exact ⟨_, inside, o, mentions, lost⟩

theorem data_eq_none : ∀ items : List Datum,
    data f items = none ↔ ∃ item ∈ items, Loses f item.Mentions
  | [] => by simp [data]
  | item :: rest => by
    rw [data, bind_eq_none fun _ => bind_pure_eq_none, datum_eq_none item,
      data_eq_none rest, List.exists_mem_cons_iff]

theorem entries_eq_none : ∀ items : List (String × Datum),
    entries f items = none ↔ ∃ entry ∈ items, Loses f entry.2.Mentions
  | [] => by simp [entries]
  | (key, item) :: rest => by
    rw [entries, bind_eq_none fun _ => bind_pure_eq_none, datum_eq_none item,
      entries_eq_none rest, List.exists_mem_cons_iff]

theorem fields_eq_none : ∀ (declared : List Field) (items : List Datum),
    fields f declared items = none ↔
      ∃ entry ∈ Instance.shown declared items, Loses f entry.2.Mentions
  | _, [] => by simp [fields, Instance.shown]
  | [], _ :: _ => by simp [fields, Instance.shown]
  | field :: declared, item :: rest => by
    rw [fields, Instance.shown_cons]
    by_cases isPublic : field.isPublic = true
    · rw [if_pos isPublic, if_pos isPublic,
        bind_eq_none fun _ => bind_pure_eq_none, datum_eq_none item,
        fields_eq_none declared rest, List.exists_mem_cons_iff]
    · rw [if_neg isPublic, if_neg isPublic, fields_eq_none declared rest]

end

end

end Render

/-! ## The heap as a graph -/

namespace Objects

open ObjectId Relation

/-- The text of an object shows another one; an object that a writer holds shows nothing. -/
def Displays (objects : Objects) (o p : ObjectId) : Prop :=
  (objects.get o).hold ≠ .exclusive ∧
    ∃ entry ∈ (objects.get o).publicFields, entry.2.Mentions p

/-- The objects of the heap show only each other. -/
def Sealed (objects : Objects) : Prop := ∀ o p, objects.Displays o p → p.index < objects.size

end Objects

/-- All objects that a value leads to at once are in the heap. -/
def HostValue.Over (v : HostValue) (objects : Objects) : Prop :=
  ∀ o, v.Mentions o → o.index < objects.size

namespace Objects

open ObjectId Relation

variable {objects : Objects} {o p : ObjectId} {v : HostValue}

/-- Only objects of the heap have fields. -/
theorem inside_of_field {entry : String × Datum} (shown : entry ∈ (objects.get o).publicFields) :
    o.index < objects.size := by
  by_contra outside
  have missing : objects.get o = default := by
    rw [Objects.get, Array.getElem?_eq_none (Nat.le_of_not_lt outside)]
    rfl
  rw [missing] at shown
  cases shown

theorem Displays.inside (displays : objects.Displays o p) : o.index < objects.size := by
  obtain ⟨-, entry, shown, -⟩ := displays
  exact inside_of_field shown

/-- An object has no text at a depth if one that it shows has none at the depth below. -/
theorem object_succ_eq_none {depth : Nat} (inside : o.index < objects.size) :
    Render.object objects (depth + 1) o = none ↔
      ∃ p, objects.Displays o p ∧ Render.object objects depth p = none := by
  have here : objects.instances[o.index]? = some (objects.get o) := by
    rw [Objects.get, Array.getElem?_eq_getElem inside]
    rfl
  rw [Render.object, here]
  by_cases held : (objects.get o).hold = .exclusive
  · simp [held, Displays]
  · simp only [if_neg held]
    rw [Render.bind_pure_eq_none, Render.fields_eq_none]
    constructor
    · rintro ⟨entry, shown, p, mentions, lost⟩
      exact ⟨p, ⟨held, entry, shown, mentions⟩, lost⟩
    · rintro ⟨p, ⟨-, entry, shown, mentions⟩, lost⟩
      exact ⟨entry, shown, p, mentions, lost⟩

theorem object_eq_none_of_walks {depth : Nat} (walks : Walks objects.Displays depth o) :
    Render.object objects depth o = none := by
  induction depth generalizing o with
  | zero => rfl
  | succ depth ih =>
    obtain ⟨p, displays, rest⟩ := walks
    exact (object_succ_eq_none displays.inside).2 ⟨p, displays, ih rest⟩

theorem walks_of_object_eq_none (sealed : objects.Sealed) {depth : Nat}
    (inside : o.index < objects.size) (lost : Render.object objects depth o = none) :
    Walks objects.Displays depth o := by
  induction depth generalizing o with
  | zero => trivial
  | succ depth ih =>
    obtain ⟨p, displays, lost⟩ := (object_succ_eq_none inside).1 lost
    exact ⟨p, displays, ih (sealed o p displays) lost⟩

/-- As deep as the heap asks for, or deeper, an object has no text exactly if it shows a circle. -/
theorem object_eq_none_iff_loops (sealed : objects.Sealed) {depth : Nat}
    (inside : o.index < objects.size) (deep : objects.size ≤ depth) :
    Render.object objects depth o = none ↔ Loops objects.Displays o := by
  constructor
  · intro lost
    exact ((walks_of_object_eq_none sealed inside lost).shorter deep).loops sealed inside
  · exact fun loops => object_eq_none_of_walks (loops.walks depth)

/-- A value has no text exactly if it leads to an object that shows a circle. -/
theorem text_eq_none (sealed : objects.Sealed) (within : v.Over objects) :
    objects.text v = none ↔ ∃ o, v.Mentions o ∧ Loops objects.Displays o := by
  rw [Objects.text, Render.value_eq_none]
  exact exists_congr fun o => and_congr_right fun mentions =>
    object_eq_none_iff_loops sealed (within o mentions) (Nat.le_refl _)

/-- A value without a text has none at any depth. -/
theorem value_eq_none_of_text (sealed : objects.Sealed) (within : v.Over objects)
    (endless : objects.text v = none) (depth : Nat) :
    Render.value (Render.object objects depth) v = none := by
  obtain ⟨o, mentions, loops⟩ := (text_eq_none sealed within).1 endless
  exact (Render.value_eq_none v).2
    ⟨o, mentions, object_eq_none_of_walks (loops.walks depth)⟩

variable {a b : Objects}

/-- Objects that come later change nothing in what those of before show. -/
theorem Extends.displays (later : a.Extends b) (displays : a.Displays o p) : b.Displays o p := by
  rw [Displays, later.get displays.inside]
  exact displays

/-- On a sealed heap, objects that come later change no text, and give none to what had none. -/
theorem Extends.text_eq (later : a.Extends b) (sealed : a.Sealed) (within : v.Over a) :
    b.text v = a.text v := by
  cases found : a.text v with
  | some text => exact later.text v text found
  | none =>
    obtain ⟨o, mentions, loops⟩ := (text_eq_none sealed within).1 found
    have still : Loops b.Displays o := loops.mono fun _ _ displays => later.displays displays
    exact (Render.value_eq_none v).2 ⟨o, mentions, object_eq_none_of_walks (still.walks b.size)⟩

end Objects

end ScriptHost
