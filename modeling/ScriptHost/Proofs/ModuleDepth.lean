import ScriptHost.Proofs.ModuleGraphs
import ScriptHost.Proofs.ModuleTexts

/-!
# Modules that are nested too deep

Reading a text and calling functions draw on the same limit.  A text that can be read by itself may
thus be nested too deep for a module at the end of a chain of modules.
-/

namespace ScriptHost

open MachineM ScriptM

namespace ModuleText

/-- Whether bytes are nested too deep to be read at a level. -/
def isTooDeep (bytes : List UInt8) (level : Nat) : Bool :=
  match Routine.ofTokens (Token.ofList bytes) ["_ENV"] level with
  | .error .tooDeep => true
  | _ => false

theorem ofBytes_of_isTooDeep {text : List Char} {level : Nat}
    (deep : isTooDeep (text.flatMap String.utf8EncodeChar) level = true) :
    Routine.ofBytes (String.ofList text).toByteArray ["_ENV"] level = .error .tooDeep := by
  rw [Routine.ofBytes, Token.ofBytes_eq_ofList, toList_toByteArray]
  unfold isTooDeep at deep
  split at deep
  · assumption
  · cases deep

/-- Whether modules require one another as often as given, down to a text that is too deep. -/
def sinks (texts : List ModuleText) : Nat → List String → String → Bool
  | 0, stack, n =>
    match named texts n with
    | some t => decide (n ∉ stack) && isTooDeep (t.text.flatMap String.utf8EncodeChar) stack.length
    | none => false
  | steps + 1, stack, n =>
    match named texts n with
    | some t =>
      match t.needed with
      | m :: _ => decide (n ∉ stack ∧ stack.length + 1 < nestingLimit) &&
        Routine.isReadFrom (t.text.flatMap String.utf8EncodeChar) t.needed stack.length &&
          sinks texts steps (n :: stack) m
      | [] => false
    | none => false

variable {texts : List ModuleText} {limit : Nat} (readable : Readable limit texts)
  (resolver : Nat) (cache : TableId) (function : FunctionId) {matters : String → Prop}

theorem answers_of_sinks (matter : ∀ m, matters m) {steps : Nat} {stack : List String} {n : String}
    (sink : sinks texts steps stack n = true) {depth : Nat}
    (room : stackLimit ≤ depth + 2 * nestingLimit) :
    ∃ e started, Answers (modules readable resolver cache function) matters
      (Calls.callAt (depth + 2 * steps)) stack [] n (some e) [] started ∧
        ∃ m text, e.cause = .load m (.runtime text) := by
  induction steps generalizing stack n with
  | zero =>
    unfold sinks at sink
    split at sink
    · next t found =>
      rw [Bool.and_eq_true, decide_eq_true_eq] at sink
      obtain ⟨closed, nested⟩ := sink
      refine ⟨_, _, .tooDeep (matter n) List.not_mem_nil closed (get?_of_named found)
        (readText_of_named readable found) (ofBytes_of_isTooDeep nested), n, _, rfl⟩
    · cases sink
  | succ steps ih =>
    unfold sinks at sink
    split at sink
    · next t found =>
      split at sink
      · next m more needed =>
        rw [Bool.and_eq_true, Bool.and_eq_true, decide_eq_true_eq] at sink
        obtain ⟨⟨⟨closed, level⟩, read⟩, below⟩ := sink
        obtain ⟨e, started, answers, m', text, cause⟩ := ih below
        obtain ⟨routine, read, module⟩ := Routine.exists_of_isReadFrom read
        have opens : (modules readable resolver cache function).Opens stack n t.needed t.path
            t.source routine :=
          ⟨get?_of_named found, readText_of_named readable found, read,
            Routine.slots_le_of_isModule module, level,
            Routine.requires_of_isModule module resolver cache function _ _⟩
        rw [needed] at opens
        have body : Completes (modules readable resolver cache function) matters
            (depth + 2 * steps + 1) (n :: stack) [] (m :: more) (some e) [] started :=
          .stop level answers
        have enough : stackLimit ≤ depth + 2 * steps + 1 + 2 * nestingLimit := by omega
        exact ⟨_, _, .failed enough (matter n) List.not_mem_nil closed opens body, m', text, cause⟩
      · cases sink
    · cases sink

/-- Ten modules, each of which requires the next, and a last one in many parentheses. -/
def deep : List ModuleText :=
  (List.range 10).map (fun i => plain ("m" ++ toString (i + 1)) ["m" ++ toString (i + 2)]) ++
    [parenthesized "m11" 192]

theorem readable_deep : Readable 1 deep := ⟨by decide +kernel, by decide +kernel, by decide +kernel⟩

theorem sinks_deep : sinks deep 10 [] "m1" = true := by decide +kernel

end ModuleText

end ScriptHost
