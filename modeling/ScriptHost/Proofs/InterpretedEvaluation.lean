import ScriptHost.Proofs.InterpretedLibrary
import ScriptHost.Script.Evaluation

/-!
# Evaluation is interpreted

Expressions and statements, by recursion on their form, and loops, by induction on their turns.
-/

namespace ScriptHost

open MachineM ScriptM

variable {call : Caller}

namespace Evaluation

/-! ## Operands and places -/

theorem read_interpreted : ∀ o : Operand, Interpreted call (read o)
  | .value _ => .pure _
  | .cell index => .cell index

theorem settle_interpreted (o : Operand) : Interpreted call (settle o) :=
  (read_interpreted o).bind fun _ => .pure _

theorem held_interpreted (index : Nat) (o : Operand) : Interpreted call (keep.held index o) := by
  unfold keep.held
  split
  · exact .ite (settle_interpreted _) (.pure _)
  · exact .pure _

theorem keep_interpreted (index : Nat) : ∀ place : Place, Interpreted call (keep index place)
  | .entry subject key _ =>
    (held_interpreted index subject).bind fun _ =>
      (held_interpreted index key).bind fun _ => .pure _
  | .cell _ => .pure _

theorem assign_interpreted (v : Value) : ∀ place : Place, Interpreted call (assign call place v)
  | .cell index => .setCell index v
  | .entry subject key _ =>
    (read_interpreted subject).bind fun _ =>
      (read_interpreted key).bind fun _ => store_interpreted _ _ _ _

theorem assignAll_interpreted (places : List Place) (values : List Value) :
    Interpreted call (assignAll call places values) := by
  induction places generalizing values with
  | nil => exact .pure _
  | cons place places ih => exact (ih _).bind fun _ => assign_interpreted _ place

theorem bind_interpreted (scope : Scope) (count : Nat) (values : List Value) :
    Interpreted call (bind scope count values) := by
  induction count generalizing scope values with
  | zero => exact .pure _
  | succ count ih => exact (Interpreted.newCell _).bind fun _ => ih _ _

theorem closure_interpreted (scope : Scope) (routine : Routine) :
    Interpreted call (closure scope routine) := .newFunction _

theorem setItems_interpreted (id : TableId) (position : Nat) (values : List Value) :
    Interpreted call (setItems id position values) := .modifyTable id _

/-! ## Calls -/

theorem callAt_interpreted (line slot : Nat) (written : Origin) (f : Value) (args : List Value) :
    Interpreted call (callAt call line slot written f args) :=
  (setLine_interpreted line).bind fun _ => .call _ _ _

theorem handOver_interpreted (line slot : Nat) (written : Origin) (f : Value) (args : List Value) :
    Interpreted call (handOver call line slot written f args) := by
  refine (setLine_interpreted line).bind fun _ => (callable_interpreted _ _ _ _).bind fun found =>
    (Interpreted.function _).bind fun function => ?_
  split
  · exact (Interpreted.call _ _ _).bind fun _ => .pure _
  · exact .bind .get fun _ => (checkRoom_interpreted _ _ _).bind fun _ => .pure _

/-! ## Loops -/

theorem turnWhile_interpreted {condition : ScriptM Value} {body : ScriptM Ending}
    (tested : Interpreted call condition) (turned : Interpreted call body) (fuel : Nat) :
    Interpreted call (turnWhile condition body fuel) := by
  induction fuel with
  | zero => exact .throw _
  | succ fuel ih =>
    refine tested.bind fun _ => .ite (.pure _) (turned.bind fun ending => ?_)
    split
    · exact ih
    · exact .pure _
    · exact .pure _

theorem turnUntil_interpreted {body : ScriptM Ending} {condition : Scope → ScriptM Value}
    (turned : Interpreted call body) (tested : ∀ scope, Interpreted call (condition scope))
    (fuel : Nat) :
    Interpreted call (turnUntil body condition fuel) := by
  induction fuel with
  | zero => exact .throw _
  | succ fuel ih =>
    refine turned.bind fun ending => ?_
    split
    · exact (tested _).bind fun _ => .ite (.pure _) ih
    · exact .pure _
    · exact .pure _

theorem countIntegers_interpreted {body : Value → ScriptM Ending} (step : Int64)
    (turned : ∀ v, Interpreted call (body v)) (count : Nat) (i : Int64) :
    Interpreted call (countIntegers step body count i) := by
  induction count generalizing i with
  | zero =>
    unfold countIntegers
    refine (turned _).bind fun ending => ?_
    split <;> exact .pure _
  | succ count ih =>
    unfold countIntegers
    refine (turned _).bind fun ending => ?_
    split
    · exact .pure _
    · exact ih _
    · exact .pure _

theorem countFloats_interpreted {body : Value → ScriptM Ending} (limit step : Binary64)
    (turned : ∀ v, Interpreted call (body v)) (fuel : Nat) (x : Binary64) :
    Interpreted call (countFloats limit step body fuel x) := by
  induction fuel generalizing x with
  | zero => exact .throw _
  | succ fuel ih =>
    refine (turned _).bind fun ending => ?_
    split
    · exact .pure _
    · exact .ite (ih _) (.pure _)
    · exact .pure _

theorem loopNumber_interpreted (what : String) (v : Value) :
    Interpreted call (loopNumber what v) := by
  unfold loopNumber
  split
  · exact .pure _
  · exact (typeName_interpreted _).bind fun _ => raise_interpreted _

theorem countLoop_interpreted {body : Value → ScriptM Ending} (start limit step : Value)
    (turned : ∀ v, Interpreted call (body v)) :
    Interpreted call (countLoop start limit step body) := by
  unfold countLoop
  split
  · refine .guarded (raise_interpreted _) <| (loopNumber_interpreted _ _).bind fun bound => ?_
    split
    · exact .pure _
    · exact countIntegers_interpreted _ turned _ _
  · exact (loopNumber_interpreted _ _).bind fun _ => (loopNumber_interpreted _ _).bind fun _ =>
      (loopNumber_interpreted _ _).bind fun _ => .guarded (raise_interpreted _) <|
        .ite (.pure _) (countFloats_interpreted _ _ turned _ _)

theorem eachLoop_interpreted {body : List Value → ScriptM Ending} (line : Nat)
    (iterator state : Value)
    (turned : ∀ values, Interpreted call (body values)) (fuel : Nat) (control : Value) :
    Interpreted call (eachLoop call line iterator state body fuel control) := by
  induction fuel generalizing control with
  | zero => exact .throw _
  | succ fuel ih =>
    refine (setLine_interpreted line).bind fun _ => (Interpreted.call _ _ _).bind fun values =>
      .ite (.pure _) ((turned values).bind fun ending => ?_)
    split
    · exact .pure _
    · exact ih _
    · exact .pure _

theorem checkClosable_interpreted (v : Value) : Interpreted call (checkClosable v) :=
  (metamethod_interpreted _ _).bind fun _ => .ite (raise_interpreted _) (.pure _)

/-! ## Expressions -/

/-- An operand reads at most the value of its expression. -/
theorem operandOf_interpreted {scope : Scope} {e : Expr} (v :
    Interpreted call (value call scope e)) :
    Interpreted call (operandOf call scope e) := by
  unfold operandOf
  split
  · exact .pure _
  · exact v.bind fun _ => .pure _

theorem subjectOf_interpreted {scope : Scope} {e : Expr} (v :
    Interpreted call (value call scope e)) :
    Interpreted call (subjectOf call scope e) := by
  unfold subjectOf
  split
  · exact .pure _
  · exact v.bind fun _ => .pure _

mutual

theorem value_interpreted (call : Caller) (scope : Scope) (e : Expr) :
    Interpreted call (value call scope e) := by
  match e with
  | .nil | .bool _ | .number _ | .text _ | .varargs =>
    unfold value
    exact .pure _
  | .variable v =>
    unfold value
    exact .cell _
  | .index subject key line =>
    have s := subjectOf_interpreted (value_interpreted call scope subject)
    have k := value_interpreted call scope key
    unfold value
    exact s.bind fun _ => k.bind fun _ => (setLine_interpreted line).bind fun _ =>
      (read_interpreted _).bind fun _ => index_interpreted _ _ _
  | .call callee args line slot =>
    have f := value_interpreted call scope callee
    have values := valuesOf_interpreted call scope args
    unfold value
    exact f.bind fun _ => values.bind fun _ => (callAt_interpreted _ _ _ _ _).bind fun _ => .pure _
  | .send subject method args nameLine line slot =>
    have s := value_interpreted call scope subject
    have values := valuesOf_interpreted call scope args
    unfold value
    exact s.bind fun _ => (setLine_interpreted _).bind fun _ =>
      (index_interpreted _ _ _).bind fun _ =>
      values.bind fun _ => (callAt_interpreted _ _ _ _ _).bind fun _ => .pure _
  | .function routine =>
    unfold value
    exact closure_interpreted scope routine
  | .unary op operand line =>
    have v := value_interpreted call scope operand
    unfold value
    exact v.bind fun _ => (setLine_interpreted line).bind fun _ => unary_interpreted _ _ _
  | .binary op left right line =>
    have a := value_interpreted call scope left
    have b := value_interpreted call scope right
    unfold value
    split
    · exact a.bind fun _ => .ite b (.pure _)
    · exact a.bind fun _ => .ite (.pure _) b
    · exact a.bind fun _ => b.bind fun _ => (setLine_interpreted line).bind fun _ =>
        concat_interpreted _ _ _ _
    · exact (operandOf_interpreted a).bind fun _ => b.bind fun _ =>
        (setLine_interpreted line).bind fun _ =>
        (read_interpreted _).bind fun _ => binary_interpreted _ _ _ _ _
  | .paren inner =>
    have v := value_interpreted call scope inner
    unfold value
    exact v
  | .table fields items entries =>
    unfold value
    exact (Interpreted.newTable _).bind fun id =>
      (fill_interpreted call scope id 1 [] fields).bind fun _ => .pure _

theorem values_interpreted (call : Caller) (scope : Scope) (e : Expr) :
    Interpreted call (values call scope e) := by
  match e with
  | .varargs =>
    unfold values
    exact .pure _
  | .call callee args line slot =>
    have f := value_interpreted call scope callee
    have rest := valuesOf_interpreted call scope args
    unfold values
    exact f.bind fun _ => rest.bind fun _ => callAt_interpreted _ _ _ _ _
  | .send subject method args nameLine line slot =>
    have s := value_interpreted call scope subject
    have rest := valuesOf_interpreted call scope args
    unfold values
    exact s.bind fun _ => (setLine_interpreted _).bind fun _ =>
      (index_interpreted _ _ _).bind fun _ =>
      rest.bind fun _ => callAt_interpreted _ _ _ _ _
  | .nil | .bool _ | .number _ | .text _ | .variable _ | .index _ _ _ | .function _ | .unary _ _ _
  | .binary _ _ _ _ | .paren _ | .table _ _ _ =>
    unfold values
    exact (value_interpreted call scope _).bind fun _ => .pure _

theorem valuesOf_interpreted (call : Caller) (scope : Scope) (es : List Expr) :
    Interpreted call (valuesOf call scope es) := by
  match es with
  | [] =>
    unfold valuesOf
    exact .pure _
  | [last] =>
    have v := values_interpreted call scope last
    unfold valuesOf
    exact v
  | e :: f :: rest =>
    have v := value_interpreted call scope e
    have others := valuesOf_interpreted call scope (f :: rest)
    unfold valuesOf
    exact v.bind fun _ => others.bind fun _ => .pure _

theorem fill_interpreted (call : Caller) (scope : Scope) (id : TableId) (next : Nat)
    (waiting : List Value) (fields : List TableField) :
    Interpreted call (fill call scope id next waiting fields) := by
  match fields with
  | [] =>
    unfold fill
    exact setItems_interpreted _ _ _
  | [.item e] =>
    have v := values_interpreted call scope e
    unfold fill
    exact v.bind fun _ => setItems_interpreted _ _ _
  | .item e :: field :: rest =>
    have v := value_interpreted call scope e
    unfold fill
    exact v.bind fun _ => .ite
      ((setItems_interpreted _ _ _).bind fun _ =>
        fill_interpreted call scope id _ [] (field :: rest))
      (fill_interpreted call scope id next _ (field :: rest))
  | .entry key e line :: rest =>
    have k := operandOf_interpreted (value_interpreted call scope key)
    have v := value_interpreted call scope e
    unfold fill
    exact k.bind fun _ => v.bind fun _ => (setLine_interpreted line).bind fun _ =>
      (read_interpreted _).bind fun _ => (rawStore_interpreted _ _ _).bind fun _ =>
        fill_interpreted call scope id next waiting rest

end

theorem placeOf_interpreted (scope : Scope) (e : Expr) :
    Interpreted call (placeOf call scope e) := by
  unfold placeOf
  split
  · exact .pure _
  · refine (subjectOf_interpreted (value_interpreted _ _ _)).bind fun _ =>
      (operandOf_interpreted (value_interpreted _ _ _)).bind fun _ => ?_
    split
    · exact .ite (.pure _) ((settle_interpreted _).bind fun _ => .pure _)
    · exact (settle_interpreted _).bind fun _ => .pure _
    · exact .pure _
  · exact .pure _

theorem placesOf_interpreted (scope : Scope) (es : List Expr) (places : List Place) :
    Interpreted call (placesOf call scope es places) := by
  induction es generalizing places with
  | nil => exact .pure _
  | cons e rest ih =>
    refine (placeOf_interpreted scope e).bind fun place => ?_
    split
    · exact (Interpreted.mapM (keep_interpreted _) places).bind fun _ => ih _
    · exact ih _

/-! ## Statements -/

mutual

theorem run_interpreted (call : Caller) (scope : Scope) (body : List Stmt) :
    Interpreted call (run call scope body) := by
  match body with
  | [] =>
    unfold run
    exact .pure _
  | s :: rest =>
    have first := exec_interpreted call scope s
    unfold run
    refine first.bind fun ending => ?_
    split
    · exact run_interpreted call _ rest
    · exact .pure _

theorem exec_interpreted (call : Caller) (scope : Scope) (s : Stmt) :
    Interpreted call (exec call scope s) := by
  match s with
  | .assign targets sources line =>
    unfold exec
    split <;> try contradiction
    · exact (placeOf_interpreted _ _).bind fun _ => (value_interpreted _ _ _).bind fun _ =>
        (setLine_interpreted _).bind fun _ => (assign_interpreted _ _).bind fun _ => .pure _
    · exact (placesOf_interpreted _ _ _).bind fun _ => (valuesOf_interpreted _ _ _).bind fun _ =>
        (setLine_interpreted _).bind fun _ => (assignAll_interpreted _ _).bind fun _ => .pure _
  | .locals count sources =>
    unfold exec
    exact (valuesOf_interpreted _ _ _).bind fun _ => (bind_interpreted _ _ _).bind fun _ => .pure _
  | .localFunction routine =>
    unfold exec
    exact (Interpreted.newCell _).bind fun _ => (closure_interpreted _ _).bind fun _ =>
      (Interpreted.setCell _ _).bind fun _ => .pure _
  | .call e =>
    unfold exec
    exact (values_interpreted _ _ _).discard.bind fun _ => .pure _
  | .block body =>
    have inner := run_interpreted call scope body
    unfold exec
    refine inner.bind fun ending => ?_
    split <;> exact .pure _
  | .loop condition body =>
    have turned := run_interpreted call scope body
    unfold exec
    exact (turnWhile_interpreted (value_interpreted _ _ _) turned _).bind fun _ => .pure _
  | .loopUntil body condition =>
    have turned := run_interpreted call scope body
    unfold exec
    exact (turnUntil_interpreted turned (fun _ => value_interpreted _ _ _) _).bind fun _ => .pure _
  | .branch condition body otherwise =>
    have first := run_interpreted call scope body
    have second := run_interpreted call scope otherwise
    have left (ending : Ending) : Interpreted call (match ending with
        | .done _ => return .done scope
        | ending => return ending : ScriptM Ending) := by
      split <;> exact .pure _
    unfold exec
    exact (value_interpreted _ _ _).bind fun _ => .ite (first.bind left) (second.bind left)
  | .countFor start limit step body line =>
    let turn (v : Value) : ScriptM Ending := do run call (← bind scope 1 [v]) body
    have turned (v : Value) : Interpreted call (turn v) :=
      (bind_interpreted _ _ _).bind fun inner => run_interpreted call inner body
    unfold exec
    have last (v : Value × Value × Value) : Interpreted call (do
        setLine line
        return (← countLoop v.1 v.2.1 v.2.2 turn).getD (.done scope)) :=
      (setLine_interpreted _).bind fun _ =>
        (countLoop_interpreted _ _ _ turned).bind fun _ => .pure _
    refine (value_interpreted _ _ _).bind fun a => (value_interpreted _ _ _).bind fun b => ?_
    split
    · exact (value_interpreted _ _ _).bind fun c => last (a, b, c)
    · exact last (a, b, .int 1)
  | .eachFor count sources body line checkLine =>
    let turn (values : List Value) : ScriptM Ending := do run call (← bind scope count values) body
    have turned (values : List Value) : Interpreted call (turn values) :=
      (bind_interpreted _ _ _).bind fun inner => run_interpreted call inner body
    unfold exec
    exact (valuesOf_interpreted _ _ _).bind fun _ => (setLine_interpreted _).bind fun _ =>
      (checkClosable_interpreted _).bind fun _ =>
        (eachLoop_interpreted _ _ _ turned _ _).bind fun _ =>
        .pure _
  | .result sources =>
    unfold exec
    split <;> try contradiction
    · exact (values_interpreted _ _ _).bind fun _ => .pure _
    · exact (valuesOf_interpreted _ _ _).bind fun _ => .pure _
  | .handOver e =>
    unfold exec
    split <;> try contradiction
    · exact (value_interpreted _ _ _).bind fun _ => (valuesOf_interpreted _ _ _).bind fun _ =>
        handOver_interpreted _ _ _ _ _
    · exact (value_interpreted _ _ _).bind fun _ => (setLine_interpreted _).bind fun _ =>
        (index_interpreted _ _ _).bind fun _ => (valuesOf_interpreted _ _ _).bind fun _ =>
          handOver_interpreted _ _ _ _ _
    · exact (values_interpreted _ _ _).bind fun _ => .pure _
  | .leave =>
    unfold exec
    exact .pure _

end

theorem apply_interpreted (routine : Routine) (outer : Array Nat) (chunk : ByteArray)
    (args : List Value) : Interpreted call (apply call routine outer chunk args) := by
  refine (bind_interpreted _ _ _).bind fun scope =>
    (run_interpreted call scope _).bind fun ending => ?_
  split <;> exact .pure _

end Evaluation

end ScriptHost
