import ScriptHost.Proofs.Conversion
import ScriptHost.Proofs.ModuleTrails

/-!
# Answers to requirements

A requirement that succeeds answers with what is then the entry of the module, up to failures of the
host: these have no identity, since each crossing makes another value of them.  A failure that was
received once is no panic that would go on, so that it can be received ever after.
-/

namespace ScriptHost

open MachineM ScriptM

namespace Machine

/-- A value that the host may receive again and again. -/
def Lasting (s : Machine) (v : Value) : Prop := ∀ index, v = .fault index → s.Settled index

variable {s t : Machine} {v : Value}

theorem Lasting.onward (lasting : s.Lasting v) (grows : s.Grows t) : t.Lasting v :=
  fun index same => grows.settled index (lasting index same)

theorem Alike.eq_of_crosses {w : Value} (alike : Alike v w) (crosses : v.Crosses) : w = v := by
  cases alike with
  | same => rfl
  | faults i j => exact absurd rfl (crosses i)

end Machine

open Machine

section

variable {ε : Type} {s t : Machine} {v w : Value}

/-- What the host has received lasts, and so does the failure that it comes from. -/
theorem receive_lasting (received : (receive v : MachineM ε Value).runOn s = (.ok w, t)) :
    Alike v w ∧ t.Lasting w ∧
      ∀ index, v = .fault index → index < t.faults.size → t.Settled index := by
  rcases receive_eq_ok received with ⟨rfl, rfl, error⟩ | ⟨index, rfl, spent, rfl, rfl⟩
  · have settled : t.Lasting w := by
      intro index same
      obtain ⟨e, there⟩ := error index same
      exact ⟨(Array.getElem?_eq_some_iff.1 there).1, fun text also => by
        cases there.symm.trans also⟩
    exact ⟨.same w, settled, fun index same _ => settled index same⟩
  · have last : Settled { s with faults := s.faults.push (.error .spentPanic) } s.faults.size :=
      ⟨by simp, fun text same => by simp at same⟩
    refine ⟨.faults _ _, fun other same => ?_, fun other same known => ?_⟩
    · cases same
      exact last
    · cases same
      rcases Nat.lt_succ_iff_lt_or_eq.1 (by simpa using known) with before | rfl
      · refine Grows.settled (.newFault s _) index ⟨before, fun text same => ?_⟩
        rw [same] at spent
        cases spent
      · exact last

/-- A value that lasts is received. -/
theorem receive_again (lasting : s.Lasting v) :
    ∃ w t, (receive v : MachineM ε Value).runOn s = (.ok w, t) ∧ Alike v w := by
  cases v with
  | fault index =>
    obtain ⟨known, settled⟩ := lasting index rfl
    have there : s.faults[index]? = some s.faults[index] := Array.getElem?_eq_getElem known
    rw [receive, runOn_bind_ok (runOn_fault index s), there]
    cases found : s.faults[index] with
    | error e => exact ⟨_, _, rfl, .same _⟩
    | panic text =>
      cases text with
      | none => exact ⟨_, _, rfl, .faults _ _⟩
      | some text => exact absurd (there.trans (congrArg some found)) (settled text)
  | _ => exact ⟨_, _, rfl, .same _⟩

/-- A value that lasts goes to scripts as one that lasts. -/
theorem send_lasting {sent : Value} (lasting : s.Lasting v)
    (sends : (send v : MachineM ε Value).runOn s = (.ok sent, t)) :
    Alike sent v ∧ t.Lasting sent ∧ t.tables = s.tables := by
  cases v with
  | fault index =>
    obtain ⟨known, settled⟩ := lasting index rfl
    have there : s.faults[index]? = some s.faults[index] := Array.getElem?_eq_getElem known
    rw [send, runOn_bind_ok (runOn_fault index s), there] at sends
    cases sends
    refine ⟨.faults _ _, fun other same => ?_, rfl⟩
    cases same
    refine ⟨by simp, fun text same => settled text ?_⟩
    rw [there, ← same]
    simp
  | _ =>
    cases sends
    exact ⟨.same _, fun index same => (by cases same), rfl⟩

theorem mapM_receive_confined (values : List Value) :
    Confined (values.mapM receive : MachineM ε (List Value)) :=
  (Interpreted.mapM receive_interpreted values).confined_alone

theorem mapM_receive_lasting {values received : List Value}
    (run : (values.mapM receive : MachineM ε (List Value)).runOn s = (.ok received, t)) :
    ∀ w ∈ received, t.Lasting w := by
  induction values generalizing s received with
  | nil =>
    cases run
    exact fun w => nofun
  | cons v rest ih =>
    rw [List.mapM_cons] at run
    obtain ⟨first, u, here, run⟩ := runOn_bind_eq_ok.1 run
    obtain ⟨others, u', there, run⟩ := runOn_bind_eq_ok.1 run
    cases run
    intro w inside
    rcases List.mem_cons.1 inside with rfl | inside
    · have onward := mapM_receive_confined (ε := ε) rest u
      rw [there] at onward
      exact (receive_lasting here).2.1.onward onward.toGrows
    · exact ih there w inside

end

/-! ## Results of loaders -/

namespace Snapshot

/-- What is rebuilt is data, a table or a function. -/
theorem rebuild_crosses {snap : Snapshot} {s t : Machine} {v : Value}
    (rebuilt : (rebuild snap).runOn s = (.ok v, t)) : v.Crosses := by
  cases snap with
  | nil | bool _ | int _ | float _ | str _ =>
    rw [rebuild] at rebuilt
    cases rebuilt
    exact fun _ => nofun
  | table entries =>
    rw [rebuild] at rebuilt
    obtain ⟨id, u, -, rebuilt⟩ := runOn_bind_eq_ok.1 rebuilt
    obtain ⟨-, u', -, rebuilt⟩ := runOn_bind_eq_ok.1 rebuilt
    cases rebuilt
    exact fun _ => nofun
  | function handle =>
    rw [rebuild] at rebuilt
    cases rebuilt
    exact fun _ => nofun

end Snapshot

section

variable {call : Caller} {s t : Machine} {v : Value}

theorem Guest.copyOf_crosses {settings : ModuleSettings} {module : String}
    (copied : (Guest.copyOf call settings module).runOn s = (.ok v, t)) : v.Crosses := by
  rw [Guest.copyOf, runOn_bind_ok (runOn_get s)] at copied
  split at copied
  · exact Snapshot.rebuild_crosses copied
  · cases copied

theorem firstFor_lasting {f : Value} {args : List Value}
    (run : (firstFor call f args).runOn s = (.ok v, t)) : t.Lasting v := by
  obtain ⟨results, u, -, received⟩ := runOn_bind_eq_ok.1 run
  exact (receive_lasting received).2.1

theorem first_callFor_lasting {f : Value} {args results : List Value}
    (run : (callFor call f args).runOn s = (.ok results, t)) : t.Lasting (first results) := by
  obtain ⟨given, u, -, received⟩ := runOn_bind_eq_ok.1 run
  cases results with
  | nil => exact fun _ => nofun
  | cons w rest => exact mapM_receive_lasting received w List.mem_cons_self

/-- What a loader results in was received from scripts, or it is a copy. -/
theorem Resolver.load_lasting {r : Nat} {name : String}
    (loaded : (Resolver.load call r name).runOn s = (.ok v, t)) : t.Lasting v := by
  rw [Resolver.load, runOn_bind_ok (Resolver.runOn_get r s)] at loaded
  split at loaded
  · exact fun index same => absurd same (Guest.copyOf_crosses (mapError_eq_ok loaded) index)
  · exact firstFor_lasting (mapError_eq_ok loaded)
  · split at loaded
    · rw [Resolver.runFile, runOn_bind_ok (MachineM.runOn_get s)] at loaded
      split at loaded
      · cases loaded
      · obtain ⟨-, u, -, loaded⟩ := runOn_bind_eq_ok.1 loaded
        obtain ⟨f, u', -, loaded⟩ := runOn_bind_eq_ok.1 (mapError_eq_ok loaded)
        obtain ⟨results, u'', called, loaded⟩ := runOn_bind_eq_ok.1 loaded
        cases loaded
        exact first_callFor_lasting called
    · cases loaded
    · cases loaded

/-! ## Answers -/

/-- What a requirement answers, and what is the entry of the module then. -/
structure ModuleEntry.Answers (e : ModuleEntry) (v : Value) (s : Machine) : Prop where
  present : v ≠ .nil
  alike : Alike (e.value s) v
  lasting : ∀ index, e.value s = .fault index → index < s.faults.size → s.Settled index

variable {e : ModuleEntry}

theorem ModuleEntry.Answers.entry_ne_nil (answers : e.Answers v s) : e.value s ≠ .nil := by
  intro absent
  have alike := answers.alike
  rw [absent] at alike
  cases alike
  exact answers.present rfl

/-- A value that is received where it is found is an answer. -/
theorem ModuleEntry.answers_of_receive {ε : Type} (present : e.value s ≠ .nil)
    (received : (receive (e.value s) : MachineM ε Value).runOn s = (.ok v, t)) : e.Answers v t := by
  obtain ⟨faults, same⟩ := receive_faults (ε := ε) (e.value s) s
  rw [received] at same
  obtain rfl : t = { s with faults } := same
  have value : e.value { s with faults } = e.value s := rfl
  obtain ⟨alike, -, settled⟩ := receive_lasting received
  exact ⟨receive_ne_nil present received, value ▸ alike, value ▸ settled⟩

theorem ModuleEntry.value_searched (e : ModuleEntry) (s : Machine) (id : TableId) (name : String) :
    e.value (s.searched id name) = e.value s := Machine.held_searched s id name _ _

theorem ModuleEntry.value_entering (known : e.cache.index < s.tables.size) (v : Value) :
    e.value (s.entering e.cache e.name v) = v :=
  (Machine.held_entering known _ _ v).trans (if_pos rfl)

/-- What scripts got is entered, and it is the answer. -/
theorem ModuleEntry.answers_entering {sent : Value} (known : e.cache.index < s.tables.size)
    (present : v ≠ .nil) (alike : Alike sent v) (lasting : s.Lasting sent) :
    e.Answers v (s.entering e.cache e.name sent) := by
  have value := value_entering known sent
  refine ⟨present, ?_, fun index same _ => lasting index (value.symm.trans same)⟩
  rw [value]
  exact alike

namespace Resolver

open ModuleEntry

/-- What is entered is what a requirement answers. -/
theorem enterValue_answers {w : Value} (known : e.cache.index < s.tables.size)
    (lasting : s.Lasting w) (run : (enterValue e.cache e.name w).runOn s = (.ok v, t)) :
    e.Answers v t := by
  by_cases present : w = .nil
  · subst present
    obtain ⟨stored, u, looked, run⟩ := runOn_bind_eq_ok.1 run
    rw [runOn_cached] at looked
    by_cases absent : e.value s = .nil
    · rw [show s.held e.cache e.name = .nil from absent] at looked
      cases looked
      cases run
      have searched : e.cache.index < (s.searched e.cache e.name).tables.size := by
        rwa [Machine.size_tables_searched]
      exact answers_entering searched nofun (.same _) nofun
    · rw [← show e.value (s.searched e.cache e.name) = s.held e.cache e.name from
        e.value_searched s _ _] at looked
      rw [← e.value_searched s e.cache e.name] at absent
      have answers := answers_of_receive absent looked
      rw [Value.isNil_eq_false answers.present] at run
      cases run
      exact answers
  · rw [enterValue_present present] at run
    obtain ⟨sent, u, sends, run⟩ := runOn_bind_eq_ok.1 run
    cases run
    obtain ⟨alike, settled, tables⟩ := send_lasting lasting sends
    exact answers_entering (tables ▸ known) present alike settled

theorem settle_eq_ok {load : Load} {outcome : Except (Stop ModuleError) Value × Machine}
    (settled : load.settle outcome = (.ok v, t)) :
    ∃ u, outcome = (.ok v, u) ∧ t = u.unmark load := by
  rcases outcome with ⟨(_ | _ | _) | w, u⟩
  · cases settled
  · cases settled
  · cases settled
  · cases settled
    exact ⟨u, rfl, rfl⟩

/-- An entry that is no failure is the answer to a requirement. -/
theorem require_entry (kept : e.Kept s) (entry : e.value s = v) (present : v ≠ .nil)
    (crosses : v.Crosses) :
    (require call e.resolver e.name).runOn s = (.ok v, s.searched e.cache e.name) := by
  subst entry
  have found : (require call e.resolver e.name).runOn s =
      (receive (e.value s)).runOn (s.searched e.cache e.name) := require_found kept.cache present
  rw [found, receive_of_crosses crosses]
  rfl

/-- A requirement that succeeds answers with what is then the entry. -/
theorem require_answers (loads : Traced e (Resolver.load call e.resolver e.name))
    (kept : e.Kept s) (run : (require call e.resolver e.name).runOn s = (.ok v, t)) :
    e.Answers v t := by
  by_cases absent : e.value s = .nil
  · rw [require_missed kept.cache absent] at run
    obtain ⟨w, u, loaded, entered⟩ := runOn_bind_eq_ok.1 run
    have searched := Follows.searched e s e.cache e.name
    by_cases marked : e.name ∈ (s.searched e.cache e.name).marks e.resolver
    · rw [loadOnce_marked e.toLoad marked] at loaded
      cases loaded
    · rw [loadOnce_free e.toLoad marked] at loaded
      obtain ⟨u', ran, rfl⟩ := settle_eq_ok loaded
      have started := kept.onward (searched.trans (.mark e _ e.toLoad))
      obtain ⟨log, trail⟩ := loads _ started
      have follows := (trail.path started).follows
      rw [ran] at follows
      have unmarks := Follows.unmark e u' e.toLoad
      exact enterValue_answers ((started.onward follows).onward unmarks).known
        ((load_lasting ran).onward unmarks.toGrows) entered
  · rw [require_found kept.cache absent] at run
    rw [← show e.value (s.searched e.cache e.name) = s.held e.cache e.name from
      e.value_searched s _ _] at run
    rw [← e.value_searched s e.cache e.name] at absent
    exact answers_of_receive absent run

end Resolver

end

end ScriptHost
