import ScriptHost.Proofs.ClassCalls
import ScriptHost.Proofs.HostConversions

/-!
# Calls of methods

Scripts call a method in two ways: by the function that is bound to its receiver, or by the function
of the class, with a proxy for the receiver in front of the arguments.  Both count the arguments,
convert them in turn, run the method and hand its results over in turn.  Either way the first of
these steps that goes wrong is the last one.
-/

namespace ScriptHost

namespace MachineM

variable {ε α β : Type} {f : α → MachineM ε β} {s t u : Machine} {items : List α}
  {results : List β} {stop : Stop ε}

/-- Items are taken in turn, each one on the machine that those before it have left. -/
inductive InTurn (f : α → MachineM ε β) : Machine → List α → List β → Machine → Prop where
  | nil (s : Machine) : InTurn f s [] [] s
  | cons {s t u : Machine} {a : α} {b : β} {items : List α} {results : List β}
      (one : (f a).runOn s = (.ok b, t)) (rest : InTurn f t items results u) :
      InTurn f s (a :: items) (b :: results) u

/-- One of the items stops the machine, after those before it have gone well. -/
inductive StopsIn (f : α → MachineM ε β) : Machine → List α → Stop ε → Machine → Prop where
  | here {s t : Machine} {a : α} {items : List α} {stop : Stop ε}
      (one : (f a).runOn s = (.error stop, t)) : StopsIn f s (a :: items) stop t
  | later {s t u : Machine} {a : α} {b : β} {items : List α} {stop : Stop ε}
      (one : (f a).runOn s = (.ok b, t)) (rest : StopsIn f t items stop u) :
      StopsIn f s (a :: items) stop u

theorem InTurn.runOn_mapM (turn : InTurn f s items results t) :
    (items.mapM f).runOn s = (.ok results, t) := by
  induction turn with
  | nil s => rfl
  | cons one rest ih =>
    rw [List.mapM_cons, runOn_bind_ok one, runOn_bind_ok ih]
    rfl

theorem StopsIn.runOn_mapM (stops : StopsIn f s items stop t) :
    (items.mapM f).runOn s = (.error stop, t) := by
  induction stops with
  | here one => rw [List.mapM_cons, runOn_bind_stop one]
  | later one rest ih => rw [List.mapM_cons, runOn_bind_ok one, runOn_bind_stop ih]

/-- All of a row go well, or one of them stops the machine. -/
theorem inTurn_or_stopsIn (f : α → MachineM ε β) (s : Machine) (items : List α) :
    (∃ results t, InTurn f s items results t) ∨ ∃ stop t, StopsIn f s items stop t := by
  induction items generalizing s with
  | nil => exact .inl ⟨[], s, .nil s⟩
  | cons a items ih =>
    rcases one : (f a).runOn s with ⟨stop | b, t⟩
    · exact .inr ⟨stop, t, .here one⟩
    · obtain ⟨results, u, rest⟩ | ⟨stop, u, rest⟩ := ih t
      · exact .inl ⟨b :: results, u, .cons one rest⟩
      · exact .inr ⟨stop, u, .later one rest⟩

end MachineM

open Machine MachineM

/--
What a call of a method on a receiver comes to, and the machine after it.  The count of the
arguments goes before everything else, and the method runs on converted arguments only.
-/
inductive HostMethod.Answers (m : HostMethod) (o : ObjectId) (s : Machine) (args : List Value) :
    Except (Stop ScriptError) (List Value) → Machine → Prop where
  | miscounted (count : args.length ≠ m.arity) :
      HostMethod.Answers m o s args
        (.error (.error (.runtime
          s!"method {m.name} expects {m.arity} arguments, got {args.length}"))) s
  | refused {stop : Stop CrossingError} {t : Machine} (count : args.length = m.arity)
      (argument : StopsIn Crossing.toHost s args stop t) :
      HostMethod.Answers m o s args (.error (stop.map CrossingError.raised)) t
  | failed {taken : List HostValue} {t : Machine} {stop : Stop HostError} {objects : Objects}
      (count : args.length = m.arity) (converted : InTurn Crossing.toHost s args taken t)
      (ran : (m.call o taken).runOn t.objects = (.error stop, objects)) :
      HostMethod.Answers m o s args (.error (stop.map ScriptError.host)) { t with objects }
  | withheld {taken results : List HostValue} {t u : Machine} {objects : Objects}
      {stop : Stop CrossingError}
      (count : args.length = m.arity) (converted : InTurn Crossing.toHost s args taken t)
      (ran : (m.call o taken).runOn t.objects = (.ok results, objects))
      (result : StopsIn Crossing.toScript { t with objects } results stop u) :
      HostMethod.Answers m o s args (.error (stop.map CrossingError.raised)) u
  | answered {taken results : List HostValue} {values : List Value} {t u : Machine}
      {objects : Objects}
      (count : args.length = m.arity) (converted : InTurn Crossing.toHost s args taken t)
      (ran : (m.call o taken).runOn t.objects = (.ok results, objects))
      (marshalled : InTurn Crossing.toScript { t with objects } results values u) :
      HostMethod.Answers m o s args (.ok values) u

namespace Published

variable {s t u : Machine} {m : HostMethod} {o : ObjectId} {args : List Value} {i : TableId}

/-! ## The two functions -/

theorem runOn_crossed_stop {α : Type} {c : CrossingM α} {stop : Stop CrossingError}
    (run : c.runOn s = (.error stop, t)) :
    (crossed c).runOn s = (.error (stop.map CrossingError.raised), t) := by
  rw [crossed, runOn_mapError, run]
  rfl

theorem runOn_bound_of_miscounted (count : args.length ≠ m.arity) :
    (bound o m args).runOn s =
      (.error (.error (.runtime
        s!"method {m.name} expects {m.arity} arguments, got {args.length}")), s) := by
  rw [bound, if_pos count]
  rfl

theorem bound_of_counted (count : args.length = m.arity) :
    bound o m args = run (m.call o) args := by
  rw [bound, if_neg (not_not_intro count)]

theorem runOn_run_of_refused {host : List HostValue → HostM (List HostValue)}
    {stop : Stop CrossingError} (argument : StopsIn Crossing.toHost s args stop t) :
    (run host args).runOn s = (.error (stop.map CrossingError.raised), t) :=
  runOn_bind_stop (runOn_crossed_stop argument.runOn_mapM) _

/-- The host runs on the arguments once all of them are converted. -/
theorem runOn_run_of_converted {host : List HostValue → HostM (List HostValue)}
    {taken : List HostValue} (converted : InTurn Crossing.toHost s args taken t) :
    (run host args).runOn s =
      (onObjects ScriptError.host (host taken) >>= resultsToScript).runOn t :=
  runOn_bind_ok (runOn_crossed_eq_ok.2 converted.runOn_mapM) _

theorem runOn_host_ok {host : HostM (List HostValue)} {results : List HostValue} {objects : Objects}
    (ran : host.runOn t.objects = (.ok results, objects)) :
    (onObjects ScriptError.host host).runOn t = (.ok results, { t with objects }) := by
  rw [runOn_onObjects, show host.run.run t.objects = _ from ran]
  rfl

theorem runOn_host_stop {host : HostM (List HostValue)} {stop : Stop HostError} {objects : Objects}
    (ran : host.runOn t.objects = (.error stop, objects)) :
    (onObjects ScriptError.host host).runOn t =
      (.error (stop.map ScriptError.host), { t with objects }) := by
  rw [runOn_onObjects, show host.run.run t.objects = _ from ran]
  rfl

/-- A call of the bound function comes to what a call of the method comes to. -/
theorem runOn_bound_of_answers {outcome : Except (Stop ScriptError) (List Value)}
    (answers : m.Answers o s args outcome t) : (bound o m args).runOn s = (outcome, t) := by
  cases answers with
  | miscounted count => exact runOn_bound_of_miscounted count
  | refused count argument => rw [bound_of_counted count, runOn_run_of_refused argument]
  | failed count converted ran =>
    rw [bound_of_counted count, runOn_run_of_converted converted,
      runOn_bind_stop (runOn_host_stop ran)]
  | withheld count converted ran result =>
    rw [bound_of_counted count, runOn_run_of_converted converted, runOn_bind_ok (runOn_host_ok ran)]
    exact runOn_crossed_stop result.runOn_mapM
  | answered count converted ran marshalled =>
    rw [bound_of_counted count, runOn_run_of_converted converted, runOn_bind_ok (runOn_host_ok ran)]
    exact runOn_crossed_eq_ok.2 marshalled.runOn_mapM

/-- A call of a method comes to something. -/
theorem answers_exists (m : HostMethod) (o : ObjectId) (s : Machine) (args : List Value) :
    ∃ outcome t, m.Answers o s args outcome t := by
  by_cases count : args.length = m.arity
  swap
  · exact ⟨_, s, .miscounted count⟩
  obtain ⟨taken, t, converted⟩ | ⟨stop, t, argument⟩ :=
    inTurn_or_stopsIn Crossing.toHost s args
  swap
  · exact ⟨_, t, .refused count argument⟩
  rcases ran : (m.call o taken).runOn t.objects with ⟨stop | results, objects⟩
  · exact ⟨_, _, .failed count converted ran⟩
  · obtain ⟨values, u, marshalled⟩ | ⟨stop, u, result⟩ :=
      inTurn_or_stopsIn Crossing.toScript { t with objects } results
    · exact ⟨_, u, .answered count converted ran marshalled⟩
    · exact ⟨_, u, .withheld count converted ran result⟩

theorem runOn_bound_iff {outcome : Except (Stop ScriptError) (List Value)} :
    (bound o m args).runOn s = (outcome, t) ↔ m.Answers o s args outcome t := by
  constructor
  · intro run
    obtain ⟨other, u, answers⟩ := answers_exists m o s args
    have same := runOn_bound_of_answers answers
    rw [run] at same
    cases same
    exact answers
  · exact runOn_bound_of_answers

/-- The function of the class does with the receiver in front what the bound function does. -/
theorem runOn_classMethod (proxy : s.Represents i o) (m : HostMethod) (args : List Value) :
    (classMethod m (.table i :: args)).runOn s = (bound o m args).runOn s := by
  by_cases count : args.length = m.arity
  · have counted : ¬(Value.table i :: args).length ≠ m.arity + 1 := by
      rw [List.length_cons, count]
      exact not_not_intro rfl
    rw [classMethod, if_neg counted, bound_of_counted count]
    exact runOn_bind_ok (runOn_receiver proxy) _
  · have miscounted : (Value.table i :: args).length ≠ m.arity + 1 := by
      rw [List.length_cons]
      omega
    rw [classMethod, if_pos miscounted, runOn_bound_of_miscounted count]
    rfl

/-- Where an argument is refused, the objects are those that were there before. -/
theorem objects_of_refused {stop : Stop CrossingError}
    (argument : StopsIn Crossing.toHost s args stop t) : t.objects = s.objects := by
  obtain ⟨faults, after⟩ := Spares.mapM Crossing.toHost_spares args s
  rw [argument.runOn_mapM] at after
  rw [show t = { s with faults } from after]

end Published

namespace Calls

open ScriptM Published

variable {s : Machine} {m : HostMethod} {o : ObjectId} {i : TableId}

/-- Scripts see no difference either: a proxy is handed over as it is. -/
theorem runOn_native_classMethod (call : Caller) (proxy : s.Represents i o) (m : HostMethod)
    (args : List Value) :
    (native call (.classMethod m) (.table i :: args)).runOn s =
      (native call (.bound o m) args).runOn s := by
  have inside : ((Value.table i :: args).mapM receive >>= classMethod m).runOn s =
      (args.mapM receive >>= bound o m).runOn s := by
    rw [List.mapM_cons, show receive (Value.table i) = (pure (.table i) : BoundaryM Value) from rfl,
      pure_bind, bind_assoc]
    simp only [pure_bind]
    obtain ⟨faults, after⟩ := Spares.mapM (Crossing.receive_spares (ε := ScriptError)) args s
    rcases handed : (args.mapM (receive (ε := ScriptError))).runOn s with ⟨stop | received, t⟩
    · rw [runOn_bind_stop handed, runOn_bind_stop handed]
    · rw [handed] at after
      rw [runOn_bind_ok handed, runOn_bind_ok handed,
        show t = { s with faults } from after]
      exact runOn_classMethod (s := { s with faults }) proxy m received
  change (ofHost ((Value.table i :: args).mapM receive >>= classMethod m)).runOn s =
    (ofHost (args.mapM receive >>= bound o m)).runOn s
  rw [runOn_ofHost, runOn_ofHost, inside]

/--
A call of a method by the function of its class, with a proxy of the receiver in front, ends like a
call by the function that is bound to the receiver, and leaves the same machine behind.  Both come
to a complaint about the count of the arguments, before anything else happens, or to what the
method makes of the converted arguments; it does not run when one of them is refused.
-/
theorem method_calls_agree (call : Caller) (m : HostMethod) {s : Machine} {i : TableId}
    {o : ObjectId} (proxy : s.Represents i o) (args : List Value) :
    (classMethod m (.table i :: args)).runOn s = (bound o m args).runOn s ∧
    (native call (.classMethod m) (.table i :: args)).runOn s =
      (native call (.bound o m) args).runOn s ∧
    (∀ outcome t, (bound o m args).runOn s = (outcome, t) ↔ m.Answers o s args outcome t) ∧
    ∀ stop t, StopsIn Crossing.toHost s args stop t → t.objects = s.objects :=
  ⟨runOn_classMethod proxy m args, runOn_native_classMethod call proxy m args,
    fun _ _ => runOn_bound_iff, fun _ _ => objects_of_refused⟩

/-- A method of one argument that sets the only field of its receiver and hands it back. -/
def dim : HostMethod where
  name := "dim"
  arity := 1
  call o args := do
    HostM.setFields o [.int 2]
    return args

/-- One object with a pointer to it. -/
def dimmer : Machine where
  tables := #[.empty]
  objects := ⟨#[⟨⟨"Lamp", "", [.visible "level" .int .int64]⟩, [.int 7], .free⟩]⟩
  handles := some (Arena.empty.insert ⟨.ptr (some ⟨0⟩), none⟩).2
  proxies := [(⟨0⟩, 0)]

/-- Without an argument the lamp is left alone; a nil is an argument. -/
theorem method_calls_agree_dimmed :
    (classMethod dim [.table ⟨0⟩]).runOn dimmer =
      (.error (.error (.runtime "method dim expects 1 arguments, got 0")), dimmer) ∧
    (classMethod dim [.table ⟨0⟩, .nil]).runOn dimmer =
      (.ok [.nil], { dimmer with objects := dimmer.objects.put ⟨0⟩ [.int 2] }) := by
  have proxy : dimmer.Represents ⟨0⟩ ⟨0⟩ := .inr rfl
  obtain ⟨without, -, comesTo, -⟩ := method_calls_agree ScriptHost.call dim proxy []
  obtain ⟨given, -, alsoTo, -⟩ := method_calls_agree ScriptHost.call dim proxy [.nil]
  refine ⟨without.trans ((comesTo _ _).2 ?_), given.trans ((alsoTo _ _).2 ?_)⟩
  · exact .miscounted nofun
  · exact .answered rfl (.cons rfl (.nil dimmer)) rfl (.cons rfl (.nil _))

end Calls

end ScriptHost
