import ScriptHost.Boundary.Crossing
import ScriptHost.Proofs.Outcome

/-!
# Texts survive new objects

The text of a value is made of the objects that the value leads to.  Where it has one, objects that
come later do not change it.
-/

namespace ScriptHost

namespace Render

/-- One computation has every result that another one has. -/
def Keeps {α : Type} (a b : Option α) : Prop := ∀ x, a = some x → b = some x

theorem Keeps.refl {α : Type} (a : Option α) : Keeps a a := fun _ found => found

theorem Keeps.bind {α β : Type} {a b : Option α} {f g : α → Option β} (first : Keeps a b)
    (rest : ∀ x, Keeps (f x) (g x)) : Keeps (a >>= f) (b >>= g) := by
  intro y found
  obtain ⟨x, here, there⟩ := Option.bind_eq_some_iff.1 found
  exact Option.bind_eq_some_iff.2 ⟨x, first x here, rest x y there⟩

section

variable {f g : ObjectId → Option String}

mutual

/-- A value keeps its text when objects keep theirs. -/
theorem value_keeps (keep : ∀ o, Keeps (f o) (g o)) : ∀ v : HostValue, Keeps (value f v) (value g v)
  | .nil | .bool _ | .int _ | .float _ | .str _ | .ptr none | .foreign _ => .refl _
  | .struct o => keep o
  | .ptr (some o) => (keep o).bind fun _ => .refl _
  | .list items => (values_keeps keep items).bind fun _ => .refl _
  | .map pairs => (valuePairs_keeps keep pairs).bind fun _ => .refl _

theorem values_keeps (keep : ∀ o, Keeps (f o) (g o)) :
    ∀ items : List HostValue, Keeps (values f items) (values g items)
  | [] => .refl _
  | item :: rest =>
    (value_keeps keep item).bind fun _ => (values_keeps keep rest).bind fun _ => .refl _

theorem valuePairs_keeps (keep : ∀ o, Keeps (f o) (g o)) :
    ∀ pairs : List (HostValue × HostValue), Keeps (valuePairs f pairs) (valuePairs g pairs)
  | [] => .refl _
  | (key, item) :: rest =>
    (value_keeps keep key).bind fun _ => (value_keeps keep item).bind fun _ =>
      (valuePairs_keeps keep rest).bind fun _ => .refl _

end

mutual

/-- A stored value keeps its text when objects keep theirs. -/
theorem datum_keeps (keep : ∀ o, Keeps (f o) (g o)) : ∀ d : Datum, Keeps (datum f d) (datum g d)
  | .bool _ | .int _ | .size _ | .float _ | .text _ | .absent => .refl _
  | .object o => (keep o).bind fun _ => .refl _
  | .any v => value_keeps keep v
  | .record shape data => (fields_keeps keep shape.fields data).bind fun _ => .refl _
  | .present content => datum_keeps keep content
  | .list items => (data_keeps keep items).bind fun _ => .refl _
  | .map items => (entries_keeps keep items).bind fun _ => .refl _

theorem data_keeps (keep : ∀ o, Keeps (f o) (g o)) :
    ∀ items : List Datum, Keeps (data f items) (data g items)
  | [] => .refl _
  | item :: rest =>
    (datum_keeps keep item).bind fun _ => (data_keeps keep rest).bind fun _ => .refl _

theorem entries_keeps (keep : ∀ o, Keeps (f o) (g o)) :
    ∀ items : List (String × Datum), Keeps (entries f items) (entries g items)
  | [] => .refl _
  | (_, item) :: rest =>
    (datum_keeps keep item).bind fun _ => (entries_keeps keep rest).bind fun _ => .refl _

theorem fields_keeps (keep : ∀ o, Keeps (f o) (g o)) :
    ∀ (declared : List Field) (items : List Datum),
      Keeps (fields f declared items) (fields g declared items)
  | [], [] | _ :: _, [] | [], _ :: _ => .refl _
  | field :: declared, item :: rest => by
    rw [fields, fields]
    split
    · exact (datum_keeps keep item).bind fun _ =>
        (fields_keeps keep declared rest).bind fun _ => .refl _
    · exact fields_keeps keep declared rest

end

end

end Render

namespace Objects

/-- A heap that has the objects of another one, and more. -/
def Extends (a b : Objects) : Prop := ∃ more, b.instances = a.instances ++ more

variable {a b c : Objects}

theorem Extends.refl (a : Objects) : a.Extends a := ⟨#[], by simp⟩

theorem Extends.trans (first : a.Extends b) (second : b.Extends c) : a.Extends c := by
  obtain ⟨more, found⟩ := first
  obtain ⟨others, again⟩ := second
  exact ⟨more ++ others, by rw [again, found, Array.append_assoc]⟩

theorem Extends.push (a : Objects) (i : Instance) : a.Extends (a.add i).2 :=
  ⟨#[i], Array.push_eq_append⟩

theorem Extends.size_le (later : a.Extends b) : a.size ≤ b.size := by
  obtain ⟨more, found⟩ := later
  simp [size, found]

/-- The objects that were there are found as before. -/
theorem Extends.get (later : a.Extends b) {o : ObjectId} (inside : o.index < a.size) :
    b.get o = a.get o := by
  obtain ⟨more, found⟩ := later
  rw [Objects.get, Objects.get, found, Array.getElem?_append_left inside]

theorem Extends.objectText (later : a.Extends b) {depth deeper : Nat} (enough : depth ≤ deeper)
    (o : ObjectId) : Render.Keeps (Render.object a depth o) (Render.object b deeper o) := by
  induction depth generalizing deeper o with
  | zero => exact nofun
  | succ depth ih =>
    obtain ⟨deeper, rfl⟩ : ∃ less, deeper = less + 1 := ⟨deeper - 1, by omega⟩
    rw [Render.object, Render.object]
    cases there : a.instances[o.index]? with
    | none => exact nofun
    | some i =>
      have still : b.instances[o.index]? = some i := by
        obtain ⟨more, same⟩ := later
        obtain ⟨inside, -⟩ := Array.getElem?_eq_some_iff.1 there
        rw [same, Array.getElem?_append_left inside, there]
      simp only [still]
      split
      · exact .refl _
      · exact (Render.fields_keeps (fun o => ih (Nat.le_of_succ_le_succ enough) o) _ _).bind
          fun _ => .refl _

/-- A value that has a text keeps it when objects are added. -/
theorem Extends.text (later : a.Extends b) (v : HostValue) : Render.Keeps (a.text v) (b.text v) :=
  Render.value_keeps (fun o => later.objectText later.size_le o) v

end Objects

namespace Crossing

open MachineM

theorem runOn_textKey (h : HostValue) (s : Machine) :
    (textKey h).runOn s =
      match s.objects.text h with
      | some text => (.ok text, s)
      | none => (.error .endless, s) := by
  rw [textKey, runOn_onObjects]
  have outcome : (HostM.textOf h).run.run s.objects =
      match s.objects.text h with
      | some text => (.ok text, s.objects)
      | none => (.error .endless, s.objects) := by
    change (match s.objects.text h with
      | some text => pure text
      | none => throw .endless : HostM String).run.run s.objects = _
    cases s.objects.text h <;> rfl
  rw [outcome]
  cases s.objects.text h <;> rfl

theorem runOn_textKey_ok {v : HostValue} {s t : Machine} {text : String}
    (run : (textKey v).runOn s = (.ok text, t)) : t = s ∧ s.objects.text v = some text := by
  rw [runOn_textKey] at run
  cases found : s.objects.text v <;> simp_all

end Crossing

end ScriptHost
