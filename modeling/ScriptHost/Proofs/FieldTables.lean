import ScriptHost.Proofs.Growth

/-!
# Tables of the fields of objects

A table that is filled with the public fields of an object holds what their stored values become for
the scripts, each under the name of its field, and nothing else.
-/

namespace ScriptHost

open Machine MachineM

/-- The public fields with their stored values. -/
def publicRows (declared : List Field) (data : List Datum) : List (Field × Datum) :=
  (declared.zip data).filter (·.1.isPublic)

/-- A stored value became a script value while a table was filled and the machine grew. -/
def Machine.Crossed (id : TableId) (s t : Machine) (d : Datum) (v : Value) : Prop :=
  ∃ u w, Grown id s u ∧ (Crossing.datum Crossing.structure? d).runOn u = (.ok v, w) ∧ Grown id w t

/-- A new table with the given fields. -/
structure Machine.FieldTable (id : TableId) (s t : Machine) (rows : List (Field × Datum)) :
    Prop where
  new : s.tables.size ≤ id.index
  entries : ∀ row ∈ rows, ∃ v, Crossed id s t row.2 v ∧
    (t.tables[id.index]?.getD default).get (.text row.1.name) = v
  only : ∀ key, (t.tables[id.index]?.getD default).get key ≠ .nil →
    ∃ row ∈ rows, key.asKey = .text row.1.name

namespace Crossing

variable {id : TableId} {s t u : Machine} {d : Datum} {v : Value}

theorem Crossed.extend (before : Grown id s t) (crossed : Crossed id t u d v) :
    Crossed id s u d v := by
  obtain ⟨a, b, grown, run, rest⟩ := crossed
  exact ⟨a, b, before.trans grown, run, rest⟩

/-- The pairs that values bring to a table under the names of fields. -/
def namedPairs (rows : List (Field × Datum)) (values : List Value) : List (Value × Value) :=
  List.zipWith (fun row v => (.text row.1.name, v)) rows values

theorem putFields_holds (declared : List Field) (data : List Datum) (sound : s.Sound)
    (inside : id.index < s.tables.size)
    (run : (putFields structure? id declared data).runOn s = (.ok (), t)) :
    ∃ values,
      List.Forall₂ (fun row v => Crossed id s t row.2 v) (publicRows declared data) values ∧
        ∀ key, (t.tables[id.index]?.getD default).get key =
          Table.assigned (namedPairs (publicRows declared data) values) key
            ((s.tables[id.index]?.getD default).get key) := by
  induction data generalizing declared s with
  | nil =>
    rw [putFields] at run
    cases run
    refine ⟨[], ?_, fun key => ?_⟩
    · rw [publicRows, List.zip_nil_right]
      exact .nil
    · rw [publicRows, List.zip_nil_right]
      rfl
  | cons item rest ih =>
    cases declared with
    | nil =>
      rw [putFields] at run
      cases run
      exact ⟨[], .nil, fun key => rfl⟩
    | cons field declared =>
      rw [putFields] at run
      cases isPublic : field.isPublic with
      | false =>
        rw [isPublic, if_neg nofun] at run
        have rows : publicRows (field :: declared) (item :: rest) = publicRows declared rest := by
          rw [publicRows, List.zip_cons_cons, List.filter_cons_of_neg (by simp [isPublic])]
          rfl
        rw [rows]
        exact ih declared sound inside run
      | true =>
        rw [isPublic, if_pos rfl] at run
        obtain ⟨v, w, crossed, run⟩ := runOn_bind_eq_ok.1 run
        rw [runOn_bind_ok (runOn_rawSet _ _ _ _)] at run
        obtain ⟨grown, within⟩ := datum_makes structure?_makes item s v w sound crossed
        have old : id ≠ ⟨s.tables.size⟩ := by
          rintro rfl
          exact Nat.lt_irrefl _ inside
        have wider := Nat.lt_of_lt_of_le inside grown.size_le
        have set : Grown id w _ := Grown.rawSet grown.sound (v := .text field.name) rfl
          (within.widen inside (Nat.le_refl _))
        have before := (grown.apart (Nat.le_refl _) (Nat.le_of_lt inside)).trans set
        have onward := putFields_fills structure?_makes id declared rest _ t set.sound
          (by simpa using wider) run
        obtain ⟨values, each, content⟩ := ih declared set.sound (by simpa using wider) run
        have rows : publicRows (field :: declared) (item :: rest) =
            (field, item) :: publicRows declared rest := by
          rw [publicRows, List.zip_cons_cons, List.filter_cons_of_pos (by simp [isPublic])]
          rfl
        rw [rows]
        refine ⟨v :: values, .cons ⟨s, w, .refl sound, crossed, set.trans onward⟩
          (each.imp fun row value later => Crossed.extend before later), fun key => ?_⟩
        have start : ((w.tables.modify id.index (·.set (.text field.name) v))[id.index]?.getD
              default).get key =
            if key.asKey = (Value.text field.name).asKey then v
            else (s.tables[id.index]?.getD default).get key := by
          rw [Array.getElem?_modify, if_pos rfl, ← grown.tables id old inside,
            Array.getElem?_eq_getElem wider, Option.map_some, Option.getD_some, Table.get_set,
            Option.getD_some]
        rw [content key]
        exact congrArg (Table.assigned _ key) start

theorem name_of_namedPairs {rows : List (Field × Datum)} {values : List Value}
    {pair : Value × Value} (among : pair ∈ namedPairs rows values) :
    ∃ row ∈ rows, pair.1 = .text row.1.name := by
  induction rows generalizing values with
  | nil => cases among
  | cons row rest ih =>
    cases values with
    | nil => cases among
    | cons v values =>
      rcases List.mem_cons.1 among with rfl | later
      · exact ⟨row, List.mem_cons_self, rfl⟩
      · obtain ⟨other, inside, same⟩ := ih later
        exact ⟨other, List.mem_cons_of_mem _ inside, same⟩

theorem keys_namedPairs {rows : List (Field × Datum)} {values : List Value}
    (long : rows.length = values.length) :
    (namedPairs rows values).map (fun pair => pair.1.asKey) =
      rows.map fun row => Value.text row.1.name := by
  induction rows generalizing values with
  | nil => rfl
  | cons row rest ih =>
    cases values with
    | nil => cases long
    | cons v values => exact congrArg _ (ih (Nat.succ.inj long))

/-- Where names are distinct, each row has its own entry. -/
theorem entry_of_namedPairs {rows : List (Field × Datum)} {values : List Value}
    {P : Field × Datum → Value → Prop} (each : List.Forall₂ P rows values) {row : Field × Datum}
    (among : row ∈ rows) : ∃ v, P row v ∧ (.text row.1.name, v) ∈ namedPairs rows values := by
  induction each with
  | nil => cases among
  | cons first _ ih =>
    rcases List.mem_cons.1 among with rfl | later
    · exact ⟨_, first, List.mem_cons_self⟩
    · obtain ⟨v, holds, inside⟩ := ih later
      exact ⟨v, holds, List.mem_cons_of_mem _ inside⟩

theorem text_inj {a b : String} (same : Value.text a = .text b) : a = b :=
  String.toByteArray_inj.1 (Value.str.inj same)

theorem publicRows_names_nodup {declared : List Field} (data : List Datum)
    (distinct : (declared.map (·.name)).Nodup) :
    ((publicRows declared data).map fun row => Value.text row.1.name).Nodup := by
  have names : ((publicRows declared data).map fun row => row.1.name).Nodup := by
    refine List.Nodup.sublist (List.filter_sublist.map _) ?_
    have firsts : ((declared.zip data).map (·.1)).Sublist declared := by
      rw [List.zip_eq_zip_take_min, List.map_fst_zip (by simp)]
      exact List.take_sublist _ _
    have names := firsts.map (·.name)
    rw [List.map_map] at names
    exact distinct.sublist names
  have texts := names.map (f := Value.text) fun a b => text_inj
  rwa [List.map_map] at texts

/-- The table of an object's public fields. -/
theorem fieldTable_ok {o : ObjectId} (sound : s.Sound)
    (run : (fieldTable o).runOn s = (.ok id, t)) :
    Grown ⟨s.tables.size⟩ s t ∧ (((s.objects.get o).shape.fields.map (·.name)).Nodup →
      FieldTable id s t (publicRows (s.objects.get o).shape.fields (s.objects.get o).fields)) := by
  rw [fieldTable, runOn_bind_ok (runOn_newTable _ s)] at run
  obtain ⟨_, u, filled, run⟩ := runOn_bind_eq_ok.1 run
  cases run
  have start : Grown ⟨s.tables.size⟩ s { s with tables := s.tables.push .empty } :=
    .newTable sound (Table.live_bare 0 0 none)
  rw [putObject] at filled
  obtain ⟨i, w, readable, put⟩ := runOn_bind_eq_ok.1 filled
  rw [runOn_readable] at readable
  split at readable
  · cases readable
  obtain ⟨outcome, rfl⟩ := Prod.mk.inj readable
  cases outcome
  have inside : (⟨s.tables.size⟩ : TableId).index < (s.tables.push .empty).size := by simp
  obtain ⟨values, each, content⟩ := putFields_holds _ _ start.sound inside put
  have empty (key : Value) :
      ((s.tables.push .empty)[s.tables.size]?.getD default).get key = .nil := by
    rw [Array.getElem?_push_size, Option.getD_some, Table.get_empty]
  refine ⟨start.trans (putFields_fills structure?_makes _ _ _ _ _ start.sound inside put),
    fun distinct => ?_⟩
  have distinctKeys := publicRows_names_nodup (s.objects.get o).fields distinct
  rw [← keys_namedPairs each.length_eq] at distinctKeys
  refine ⟨?_, ?_, ?_⟩
  · exact Nat.le_refl _
  · intro row among
    obtain ⟨v, crossed, paired⟩ := entry_of_namedPairs each among
    refine ⟨v, Crossed.extend start crossed, ?_⟩
    rw [content]
    exact Table.assigned_of_mem _ distinctKeys paired
  · intro key there
    by_contra absent
    refine there ?_
    rw [content, Table.assigned_of_not_mem _ fun pair among same => absent ?_]
    · exact empty key
    · obtain ⟨row, inside, named⟩ := name_of_namedPairs among
      refine ⟨row, inside, same.trans ?_⟩
      rw [named]
      rfl

end Crossing

end ScriptHost
