import ScriptHost.Proofs.Assignments

/-!
# What a conversion for the host leaves alone

A value on its way to the host is read and nothing else: a conversion changes no more than the
caught failures, which the host takes out of tables, and leaves objects, tables and proxies as they
are, however it ends.  Where it has a result, it met no caught panic that would have gone on.
-/

namespace ScriptHost

namespace MachineM

variable {ε α β : Type}

/-- A computation that changes nothing but caught failures, however it ends. -/
def Spares (m : MachineM ε α) : Prop := ∀ s, ∃ faults, (m.runOn s).2 = { s with faults }

namespace Spares

variable {m : MachineM ε α}

theorem of_same (same : ∀ s, (m.runOn s).2 = s) : Spares m := by
  intro s
  exact ⟨s.faults, same s⟩

theorem pure (a : α) : Spares (Pure.pure a : MachineM ε α) := of_same fun _ => rfl

theorem fail (e : ε) : Spares (MachineM.fail e : MachineM ε α) := of_same fun _ => rfl

theorem bind {f : α → MachineM ε β} (first : Spares m) (rest : ∀ a, Spares (f a)) :
    Spares (m >>= f) := by
  intro s
  obtain ⟨faults, after⟩ := first s
  rw [runOn_bind]
  rcases run : m.runOn s with ⟨stop | a, t⟩
  · rw [run] at after
    exact ⟨faults, after⟩
  · rw [run] at after
    obtain ⟨later, final⟩ := rest a t
    refine ⟨later, final.trans ?_⟩
    rw [show t = { s with faults } from after]

theorem mapM {f : β → MachineM ε α} (each : ∀ b, Spares (f b)) (items : List β) :
    Spares (items.mapM f) := by
  induction items with
  | nil => exact .pure []
  | cons item rest ih =>
    rw [List.mapM_cons]
    exact (each item).bind fun _ => ih.bind fun _ => .pure _

end Spares

/-- A computation of the host that stops a machine changes its objects only. -/
theorem runOn_onObjects_stop {f : HostError → ε} {m : HostM α} {s t : Machine} {stop : Stop ε}
    (run : (onObjects f m).runOn s = (.error stop, t)) :
    ∃ other objects, m.runOn s.objects = (.error other, objects) ∧ t = { s with objects } := by
  have outcome : (onObjects f m).runOn s =
      ((m.runOn s.objects).1.mapError (Stop.map f), { s with objects := (m.runOn s.objects).2 }) :=
    runOn_onObjects f m s
  rw [run] at outcome
  rcases inner : m.runOn s.objects with ⟨other | a, objects⟩
  · rw [inner] at outcome
    exact ⟨other, objects, rfl, (Prod.mk.inj outcome).2⟩
  · rw [inner] at outcome
    cases outcome

/-- A row of computations stops at one of them, after those before it went well. -/
theorem runOn_forM_stop {f : β → MachineM ε PUnit} {items : List β} {s t : Machine} {stop : Stop ε}
    (run : (items.forM f).runOn s = (.error stop, t)) :
    ∃ before item after u, items = before ++ item :: after ∧
      (before.forM f).runOn s = (.ok (), u) ∧ (f item).runOn u = (.error stop, t) := by
  induction items generalizing s with
  | nil => cases run
  | cons first rest ih =>
    rw [List.forM] at run
    rcases one : (f first).runOn s with ⟨other | done, u⟩
    · rw [runOn_bind_stop one] at run
      cases run
      exact ⟨[], first, rest, s, rfl, rfl, one⟩
    · rw [runOn_bind_ok one] at run
      obtain ⟨before, item, after, w, rfl, others, stops⟩ := ih run
      refine ⟨first :: before, item, after, w, rfl, ?_, stops⟩
      rw [List.forM, runOn_bind_ok one]
      exact others

end MachineM

namespace Crossing

open Machine MachineM

/-! ## Conversions for the host leave objects alone -/

theorem receive_spares {ε : Type} (v : Value) : Spares (ScriptM.receive v : MachineM ε Value) := by
  cases v with
  | fault index =>
    intro s
    rw [ScriptM.receive, runOn_bind_ok (runOn_fault index s)]
    cases s.faults[index]?.getD default with
    | error e => exact ⟨s.faults, rfl⟩
    | panic text =>
      cases text with
      | none => exact ⟨_, rfl⟩
      | some text => exact ⟨_, rfl⟩
  | _ => exact .pure _

theorem receiveEntry_spares (entry : Value × Value) : Spares (receiveEntry entry) :=
  (receive_spares entry.1).bind fun _ => (receive_spares entry.2).bind fun _ => .pure _

theorem textKey_spares (h : HostValue) : Spares (textKey h) := by
  apply Spares.of_same
  intro s
  rw [runOn_textKey]
  cases s.objects.text h with
  | none => rfl
  | some text => rfl

theorem contents_spares {convert : Value → CrossingM HostValue} (each : ∀ v, Spares (convert v))
    (entries : List (Value × Value)) : Spares (contents convert entries) := by
  rw [contents]
  cases sequence? entries with
  | some items => exact (Spares.mapM each items).bind fun _ => .pure _
  | none =>
    refine (Spares.mapM (fun entry => ?_) entries).bind fun _ => .pure _
    exact (each entry.1).bind fun _ => (textKey_spares _).bind fun _ => (each entry.2).bind
      fun _ => .pure _

theorem entriesOf_spares (id : TableId) : Spares (entriesOf id) := by
  intro s
  rw [entriesOf, runOn_bind_ok (runOn_table id s)]
  exact Spares.mapM receiveEntry_spares _ s

/-- A value is a table, or it is converted at once. -/
theorem table_or_done (v : Value) :
    (∃ id, v = .table id) ∨ ∀ depth passed, ∃ h, hostValue depth passed v = pure h := by
  cases v with
  | table id => exact .inl ⟨id, rfl⟩
  | float x =>
    refine .inr fun depth passed => ?_
    cases integral : x.toInt64? with
    | none => exact ⟨.float x, by cases depth <;> simp [hostValue, integral]⟩
    | some i => exact ⟨.int i, by cases depth <;> simp [hostValue, integral]⟩
  | _ => exact .inr fun depth passed => ⟨_, by cases depth <;> rfl⟩

theorem hostValue_spares (depth : Nat) (passed : List TableId) (v : Value) :
    Spares (hostValue depth passed v) := by
  induction depth generalizing passed v with
  | zero =>
    obtain ⟨id, rfl⟩ | done := table_or_done v
    · intro s
      rw [hostValue_table_zero, runOn_bind_ok (runOn_get s)]
      split
      · exact Spares.pure _ s
      · split
        · exact Spares.fail _ s
        · exact Spares.fail _ s
    · obtain ⟨h, same⟩ := done 0 passed
      exact same ▸ .pure h
  | succ depth ih =>
    obtain ⟨id, rfl⟩ | done := table_or_done v
    · intro s
      rw [hostValue_table_succ, runOn_bind_ok (runOn_get s)]
      split
      · exact Spares.pure _ s
      · split
        · exact Spares.fail _ s
        · exact (entriesOf_spares id).bind (contents_spares (ih (id :: passed))) s
    · obtain ⟨h, same⟩ := done (depth + 1) passed
      exact same ▸ .pure h

theorem toHost_spares (v : Value) : Spares (toHost v) := hostValue_spares depthLimit [] v

/-! ## A conversion with a result met no panic -/

section Quiet

variable {s t u : Machine}

theorem receive_of_raises {v : Value} {text : String} (later : s.Later t)
    (raises : s.Raises v text) :
    ∃ u, (ScriptM.receive v : CrossingM Value).runOn t = (.error (.panic text), u) := by
  obtain ⟨index, rfl, found⟩ := raises
  obtain ⟨n, rfl⟩ := later
  have inside : index < s.faults.size := (Array.getElem?_eq_some_iff.1 found).1
  have still : (s.faults ++ Array.replicate n (Fault.error .spentPanic))[index]? =
      some (.panic (some text)) := by
    rw [Array.getElem?_append_left inside]
    exact found
  rw [ScriptM.receive, runOn_bind_ok (runOn_fault index _)]
  dsimp only
  rw [still]
  exact ⟨_, rfl⟩

theorem not_raises_of_receive {v w : Value} (later : s.Later t)
    (run : (ScriptM.receive v : CrossingM Value).runOn t = (.ok w, u)) (text : String) :
    ¬ s.Raises v text := by
  intro raises
  obtain ⟨_, panics⟩ := receive_of_raises later raises
  rw [run] at panics
  cases panics

/-- An entry that the host took holds no panic that would go on. -/
theorem not_raises_of_receiveEntry {pair taken : Value × Value} (later : s.Later t)
    (run : (receiveEntry pair).runOn t = (.ok taken, u)) (text : String) :
    ¬ s.Raises pair.1 text ∧ ¬ s.Raises pair.2 text := by
  rw [receiveEntry] at run
  obtain ⟨k, w, tookKey, run⟩ := runOn_bind_eq_ok.1 run
  obtain ⟨v, x, tookValue, -⟩ := runOn_bind_eq_ok.1 run
  have between : s.Later w := by
    obtain ⟨_, _, first, later, -⟩ | ⟨_, _, -, first⟩ := runOn_receive later pair.1
    · rw [tookKey] at first
      cases first
      exact later
    · rw [tookKey] at first
      cases first
  exact ⟨not_raises_of_receive later tookKey text, not_raises_of_receive between tookValue text⟩

/-- Where all of a row went well, each part of it went well on some later machine. -/
theorem each_of_mapM {α β : Type} {f : α → CrossingM β} {items : List α} {results : List β}
    (keeps : ∀ item ∈ items, ∀ t b u, s.Later t → (f item).runOn t = (.ok b, u) → s.Later u)
    (later : s.Later t) (run : (items.mapM f).runOn t = (.ok results, u)) :
    ∀ item ∈ items, ∃ t b u, s.Later t ∧ (f item).runOn t = (.ok b, u) := by
  induction items generalizing t u results with
  | nil => exact nofun
  | cons first rest ih =>
    rw [List.mapM_cons] at run
    obtain ⟨b, w, one, run⟩ := runOn_bind_eq_ok.1 run
    obtain ⟨_, x, others, -⟩ := runOn_bind_eq_ok.1 run
    intro item inside
    rcases List.mem_cons.1 inside with rfl | inside
    · exact ⟨t, b, w, later, one⟩
    · exact ih (fun item inside => keeps item (List.mem_cons_of_mem _ inside))
        (keeps first List.mem_cons_self t b w later one) others item inside

theorem not_alarming_of_entriesOf {id : TableId} {found : List (Value × Value)} (later : s.Later t)
    (run : (entriesOf id).runOn t = (.ok found, u)) (text : String) : ¬ s.Alarming id text := by
  rw [entriesOf, runOn_bind_ok (runOn_table id t), later.tables] at run
  rintro ⟨v, ⟨pair, inside, held⟩, raises⟩
  obtain ⟨w, taken, x, before, took⟩ := each_of_mapM (fun pair _ t taken u later run => by
    obtain ⟨⟨n, rfl⟩, -⟩ := receiveEntry_ok run
    obtain ⟨m, rfl⟩ := later
    refine ⟨m + n, ?_⟩
    simp [Array.append_assoc, Array.replicate_append_replicate]) later run pair inside
  obtain ⟨noKey, noValue⟩ := not_raises_of_receiveEntry before took text
  rcases held with rfl | rfl
  · exact noKey raises
  · exact noValue raises

variable {depth : Nat} {passed : List TableId}

theorem hostValue_ok {v : Value} {h : HostValue} (later : s.Later t)
    (run : (hostValue depth passed v).runOn t = (.ok h, u)) :
    s.Later u ∧ s.Unfolds v h ∧ s.Shallow v depth := by
  obtain ⟨_, _, same, after, unfolds, shallow⟩ | ⟨_, _, stopped, -⟩ :=
    hostValue_converts s depth passed v t later
  · rw [run] at same
    cases same
    exact ⟨after, unfolds, shallow⟩
  · rw [run] at stopped
    cases stopped

/-- The key and the value of an entry that was named were converted. -/
theorem namedEntry_ok {pair : Value × Value} {named : HostValue × HostValue} (later : s.Later t)
    (run : (namedEntry (hostValue depth passed) pair).runOn t = (.ok named, u)) :
    s.Later u ∧
      (∃ t h u, s.Later t ∧ (hostValue depth passed pair.1).runOn t = (.ok h, u)) ∧
      ∃ t h u, s.Later t ∧ (hostValue depth passed pair.2).runOn t = (.ok h, u) := by
  rw [namedEntry] at run
  obtain ⟨k, w, key, rest⟩ := runOn_bind_eq_ok.1 run
  obtain ⟨text, x, shown, rest⟩ := runOn_bind_eq_ok.1 rest
  obtain ⟨v, y, value, done⟩ := runOn_bind_eq_ok.1 rest
  have between := (hostValue_ok later key).1
  have same := (runOn_textKey_ok shown).1
  rw [same] at value
  have after := (hostValue_ok between value).1
  cases done
  exact ⟨after, ⟨t, k, w, later, key⟩, ⟨w, v, _, between, value⟩⟩

/-- A table was converted: so was what it holds. -/
theorem held_of_contents {id : TableId} {h : HostValue} (later : s.Later t)
    (run : (contents (hostValue depth passed) (s.pairsOf id)).runOn t = (.ok h, u)) {v : Value}
    (holds : s.Holds id v) :
    ∃ t h u, s.Later t ∧ (hostValue depth passed v).runOn t = (.ok h, u) := by
  obtain ⟨pair, inside, held⟩ := holds
  rw [contents] at run
  rcases integers_or_other (s.pairsOf id) with ⟨indexed, pairs⟩ | mixed
  · rw [pairs, sequence?_of_integers] at run
    obtain ⟨_, _, items, -⟩ := runOn_bind_eq_ok.1 run
    rw [pairs] at inside
    obtain ⟨entry, among, rfl⟩ := List.mem_map.1 inside
    rcases held with rfl | rfl
    · exact ⟨t, .int entry.1, t, later, by cases depth <;> rfl⟩
    · exact each_of_mapM (fun v _ t h u later run => (hostValue_ok later run).1) later items _
        (List.mem_map_of_mem (List.mem_mergeSort.2 among))
  · rw [sequence?_of_other mixed] at run
    obtain ⟨_, _, entries, -⟩ := runOn_bind_eq_ok.1 run
    obtain ⟨w, _, x, before, took⟩ :=
      each_of_mapM (fun pair _ t named u later run => (namedEntry_ok later run).1) later entries
        pair inside
    rcases held with rfl | rfl
    · exact (namedEntry_ok before took).2.1
    · exact (namedEntry_ok before took).2.2

/-- A plain table was converted: it makes no panic go on, and what it holds was converted. -/
theorem hostValue_table_ok {id : TableId} {h : HostValue} (plain : s.Plain id) (later : s.Later t)
    (run : (hostValue depth passed (.table id)).runOn t = (.ok h, u)) :
    (∀ text, ¬ s.Alarming id text) ∧ ∀ v, s.Holds id v →
      ∃ depth passed t h u, s.Later t ∧ (hostValue depth passed v).runOn t = (.ok h, u) := by
  cases depth with
  | zero =>
    rw [hostValue_table_zero, runOn_bind_ok (runOn_get t), later.unwrap?, plain] at run
    dsimp only at run
    split at run
    · cases run
    · cases run
  | succ depth =>
    rw [hostValue_table_succ, runOn_bind_ok (runOn_get t), later.unwrap?, plain] at run
    dsimp only at run
    split at run
    · cases run
    · obtain ⟨found, w, entries, rest⟩ := runOn_bind_eq_ok.1 run
      refine ⟨not_alarming_of_entriesOf later entries, fun v holds => ?_⟩
      obtain ⟨_, _, again, after, likes⟩ | ⟨_, _, stopped, -⟩ := runOn_entriesOf id later
      · rw [entries] at again
        cases again
        rw [contents_congr hostValue_alike likes] at rest
        exact ⟨depth, id :: passed, held_of_contents after rest holds⟩
      · rw [entries] at stopped
        cases stopped

/-- A value that was converted reaches no table with a panic that would go on. -/
theorem not_alarming_of_hostValue {v : Value} {h : HostValue} (later : s.Later t)
    (run : (hostValue depth passed v).runOn t = (.ok h, u)) {id : TableId}
    (reaches : s.Reaches v id) (text : String) : ¬ s.Alarming id text := by
  obtain ⟨chain, isChain, among⟩ := reaches
  induction isChain generalizing depth passed t h u with
  | last plain =>
    obtain rfl := List.mem_singleton.1 among
    exact (hostValue_table_ok plain later run).1 text
  | cons plain holds _ ih =>
    obtain ⟨quiet, inner⟩ := hostValue_table_ok plain later run
    rcases List.mem_cons.1 among with rfl | among
    · exact quiet text
    · obtain ⟨_, _, _, _, _, before, converted⟩ := inner _ holds
      exact ih before converted among

end Quiet

end Crossing

end ScriptHost
