import ScriptHost.Proofs.Interpreted

/-!
# Operators are interpreted

What operators do is put together from the parts that scripts have, and so are the errors that they
raise and the frames of calls.
-/

namespace ScriptHost

open MachineM

variable {call : Caller}

namespace ScriptM

variable {α : Type}

/-! ## Errors and frames -/

theorem position_interpreted (level : Nat) : Interpreted call (position level) := by
  refine .bind .get fun s => ?_
  split <;> exact .pure _

theorem raiseAt_interpreted (level : Nat) (message : String) :
    Interpreted call (raiseAt level message : ScriptM α) :=
  (position_interpreted level).bind fun _ => .fail _

theorem raise_interpreted (message : String) : Interpreted call (raise message : ScriptM α) :=
  raiseAt_interpreted 0 message

theorem setLine_interpreted (line : Nat) : Interpreted call (setLine line) := by
  refine .change (fun s => ?_) fun s => ?_
  · rcases s with ⟨_, _, _, _, _, _, _, _, _, _, _, _, _, _ | ⟨frame, rest⟩⟩
    · exact .none
    · exact .frames _
  · rcases s with ⟨_, _, _, _, _, _, _, _, _, _, _, _, _, _ | ⟨frame, rest⟩⟩
    · exact .refl _
    · exact ⟨rfl, rfl, fun _ => rfl⟩

theorem inFrame_interpreted {m : ScriptM α} (frame : Frame) (inner : Interpreted call m) :
    Interpreted call (inFrame frame m) :=
  .bind .get fun _ =>
    .bind (.change (fun _ => .frames _) fun _ => ⟨rfl, rfl, fun _ => rfl⟩) fun _ =>
    inner.andThen (fun _ => .frames _) fun _ => ⟨rfl, rfl, fun _ => rfl⟩

theorem nested_interpreted {m : ScriptM α} (inner :
    Interpreted call m) : Interpreted call (nested m) :=
  .bind .get fun _ => .guarded (raise_interpreted _) <|
    .bind (.change (fun _ => .nesting _) fun _ => ⟨rfl, rfl, fun _ => rfl⟩) fun _ =>
      inner.andThen (fun _ => .nesting _) fun _ => ⟨rfl, rfl, fun _ => rfl⟩

theorem checkRoom_interpreted (start arguments slots : Nat) :
    Interpreted call (checkRoom start arguments slots) := .ite (raise_interpreted _) (.pure _)

theorem startOf_interpreted (site : CallSite) : Interpreted call (startOf site) := by
  refine .bind .get fun s => ?_
  split <;> exact .pure _

/-! ## Metatables -/

theorem metatable_interpreted : ∀ v : Value, Interpreted call (metatable v)
  | .table id => (Interpreted.table id).bind fun _ => .pure _
  | .str _ => .bind .get fun _ => .pure _
  | .userdata _ => .bind .get fun _ => .pure _
  | .nil | .bool _ | .int _ | .float _ | .function _ | .thread _ | .pointer | .fault _ => .pure _

theorem metamethod_interpreted (v : Value) (event : String) :
    Interpreted call (metamethod v event) :=
  (metatable_interpreted v).bind fun
    | some id => .rawGet id _
    | none => .pure _

theorem typeName_interpreted (v : Value) : Interpreted call (typeName v) := by
  unfold typeName
  split
  · refine (metamethod_interpreted _ "name").bind fun name => ?_
    split <;> exact .pure _
  · refine (metamethod_interpreted _ "name").bind fun name => ?_
    split <;> exact .pure _
  · exact .pure _

theorem raiseType_interpreted (action : String) (v : Value) (origin : Origin) :
    Interpreted call (raiseType action v origin : ScriptM α) :=
  (typeName_interpreted v).bind fun _ => raise_interpreted _

theorem callable_interpreted (site : CallSite) (fuel : Nat) (f : Value) (args : List Value) :
    Interpreted call (callable site fuel f args) := by
  induction fuel generalizing f args with
  | zero =>
    cases f with
    | function id => exact .pure _
    | _ => exact raise_interpreted _
  | succ fuel ih =>
    cases f with
    | function id => exact .pure _
    | _ =>
      exact (metamethod_interpreted _ _).bind fun _ =>
        .ite (raiseType_interpreted _ _ _) (ih _ _)

theorem eitherMetamethod_interpreted (a b : Value) (event : String) :
    Interpreted call (eitherMetamethod a b event) :=
  (metamethod_interpreted a event).bind fun _ => .ite (metamethod_interpreted b event) (.pure _)

theorem viaMetamethod_interpreted {otherwise : ScriptM Value} (event : String) (a b : Value)
    (other : Interpreted call otherwise) :
    Interpreted call (viaMetamethod call event a b otherwise) :=
  (eitherMetamethod_interpreted a b event).bind fun _ =>
    .ite other ((Interpreted.call _ _ _).bind fun _ => .pure _)

/-! ## Indexing -/

theorem indexFrom_interpreted (origin : Origin) (key : Value) (fuel : Nat) (subject : Value) :
    Interpreted call (indexFrom call origin key fuel subject) := by
  induction fuel generalizing origin subject with
  | zero => exact raise_interpreted _
  | succ fuel ih =>
    -- what the metamethod is decides how the search goes on, in each of the cases alike
    cases subject with
    | table id =>
      refine (Interpreted.rawGet id key).bind fun _ => .ite (.pure _) <|
        (metamethod_interpreted _ _).bind fun _ => .ite (.pure _) (.bind (.pure _) fun event => ?_)
      cases event with
      | function _ => exact (Interpreted.call _ _ _).bind fun _ => .pure _
      | _ => exact ih _ _
    | _ =>
      refine (metamethod_interpreted _ _).bind fun _ => .ite
        ((raiseType_interpreted _ _ _).bind fun _ => .bind (.pure _) fun event => ?_)
        (.bind (.pure _) fun event => ?_)
      all_goals
        cases event with
        | function _ => exact (Interpreted.call _ _ _).bind fun _ => .pure _
        | _ => exact ih _ _

theorem index_interpreted (origin : Origin) (subject key : Value) :
    Interpreted call (index call origin subject key) := indexFrom_interpreted origin key _ subject

theorem rawStore_interpreted (id : TableId) (key v : Value) :
    Interpreted call (rawStore id key v) := by
  unfold rawStore
  split
  · exact raise_interpreted _
  · exact .ite (raise_interpreted _) (.rawSet _ _ _)
  · exact .rawSet _ _ _

theorem storeFrom_interpreted (origin : Origin) (key v : Value) (fuel : Nat) (subject : Value) :
    Interpreted call (storeFrom call origin key v fuel subject) := by
  induction fuel generalizing origin subject with
  | zero => exact raise_interpreted _
  | succ fuel ih =>
    cases subject with
    | table id =>
      refine (Interpreted.rawGet id key).bind fun _ => .ite
        (.bind (.pure _) fun event => .ite (rawStore_interpreted id key v) ?_)
        ((metamethod_interpreted _ _).bind fun event => .ite (rawStore_interpreted id key v) ?_)
      all_goals
        cases event with
        | function _ => exact (Interpreted.call _ _ _).discard
        | _ => exact ih _ _
    | _ =>
      refine (metamethod_interpreted _ _).bind fun _ => .ite
        ((raiseType_interpreted _ _ _).bind fun _ => .bind (.pure _) fun event => ?_)
        (.bind (.pure _) fun event => ?_)
      all_goals
        cases event with
        | function _ => exact (Interpreted.call _ _ _).discard
        | _ => exact ih _ _

theorem store_interpreted (origin : Origin) (subject key v : Value) :
    Interpreted call (store call origin subject key v) :=
  storeFrom_interpreted origin key v _ subject

/-! ## Operators -/

theorem raiseOperand_interpreted (action : String) (a b : Value) (originA originB : Origin) :
    Interpreted call (raiseOperand action a b originA originB : ScriptM α) :=
  .ite (raiseType_interpreted _ _ _) (raiseType_interpreted _ _ _)

theorem raiseNotIntegral_interpreted (a : Value) (originA originB : Origin) :
    Interpreted call (raiseNotIntegral a originA originB : ScriptM α) := raise_interpreted _

theorem arithmetic_interpreted (op : BinaryOp) (a b : Value) (originA originB : Origin) :
    Interpreted call (arithmetic call op a b originA originB) := by
  unfold arithmetic
  split
  · split
    · exact .pure _
    · exact raiseNotIntegral_interpreted _ _ _
    · exact raise_interpreted _
  · refine .ite ?_ (viaMetamethod_interpreted _ _ _ (raiseOperand_interpreted _ _ _ _ _))
    split
    · exact .pure _
    · exact viaMetamethod_interpreted _ _ _ (raiseOperand_interpreted _ _ _ _ _)

theorem onTexts_interpreted (event : String)
    (apply : Numeral → Numeral → Except Arithmetic.Failure Numeral) (a b : Value) :
    Interpreted call (onTexts call event apply a b) := by
  unfold onTexts
  split
  · split
    · exact .pure _
    · exact raise_interpreted _
  · have onward (found : Value) : Interpreted call (if found.isNil then
          raiseAt 1 s!"attempt to {event} a '{a.type}' with a '{b.type}'"
        else do return first (← call {} found [a, b])) :=
      .ite (raiseAt_interpreted _ _) ((Interpreted.call _ _ _).bind fun _ => .pure _)
    exact .ite (.bind (.pure _) onward) ((metamethod_interpreted _ _).bind onward)

theorem concat_interpreted (a b : Value) (originA originB : Origin) :
    Interpreted call (concat call a b originA originB) := by
  unfold concat
  split
  · exact .pure _
  · exact (eitherMetamethod_interpreted _ _ _).bind fun _ => .ite
      (.ite (raiseType_interpreted _ _ _) (raiseType_interpreted _ _ _))
      ((Interpreted.call _ _ _).bind fun _ => .pure _)

theorem equal_interpreted (a b : Value) : Interpreted call (equal call a b) := by
  refine .ite (.pure _) ?_
  split
  · exact (eitherMetamethod_interpreted _ _ _).bind fun _ => .ite (.pure _)
      ((Interpreted.call _ _ _).bind fun _ => .pure _)
  · exact .pure _

theorem compare_interpreted (event : String) (numbers : Numeral → Numeral → Bool)
    (strings : Ordering → Bool) (a b : Value) {otherwise : ScriptM Bool}
    (other : Interpreted call otherwise) :
    Interpreted call (compare call event numbers strings a b otherwise) := by
  unfold compare
  split
  · exact .pure _
  · exact .pure _
  · exact (eitherMetamethod_interpreted _ _ _).bind fun _ => .ite other
      ((Interpreted.call _ _ _).bind fun _ => .pure _)

theorem raiseOrder_interpreted (a b : Value) : Interpreted call (raiseOrder a b : ScriptM α) :=
  (typeName_interpreted a).bind fun _ => (typeName_interpreted b).bind fun _ =>
    .ite (raise_interpreted _) (raise_interpreted _)

theorem less_interpreted (a b : Value) : Interpreted call (less call a b) :=
  compare_interpreted _ _ _ a b (raiseOrder_interpreted a b)

theorem atMost_interpreted (a b : Value) : Interpreted call (atMost call a b) :=
  compare_interpreted _ _ _ a b <| (eitherMetamethod_interpreted _ _ _).bind fun _ =>
    .ite (raiseOrder_interpreted a b) ((Interpreted.call _ _ _).bind fun _ => .pure _)

theorem length_interpreted (v : Value) (origin : Origin) :
    Interpreted call (length call v origin) := by
  unfold length
  split
  · exact .pure _
  · refine (metamethod_interpreted _ _).bind fun _ =>
      .ite ((Interpreted.call _ _ _).bind fun _ => .pure _) ?_
    split
    · exact (Interpreted.rawLength _).bind fun _ => .pure _
    · exact raiseType_interpreted _ _ _

theorem unary_interpreted (op : UnaryOp) (v : Value) (origin : Origin) :
    Interpreted call (unary call op v origin) := by
  unfold unary
  split
  · exact .pure _
  · exact length_interpreted v origin
  · split
    · exact .pure _
    · exact viaMetamethod_interpreted _ _ _ (raiseType_interpreted _ _ _)
  · split
    · exact .pure _
    · exact raiseNotIntegral_interpreted _ _ _
    · exact viaMetamethod_interpreted _ _ _ (raiseType_interpreted _ _ _)

theorem binary_interpreted (op : BinaryOp) (a b : Value) (originA originB : Origin) :
    Interpreted call (binary call op a b originA originB) := by
  cases op with
  | concat => exact concat_interpreted a b originA originB
  | equal => exact (equal_interpreted a b).bind fun _ => .pure _
  | unequal => exact (equal_interpreted a b).bind fun _ => .pure _
  | less => exact (less_interpreted a b).bind fun _ => .pure _
  | atMost => exact (atMost_interpreted a b).bind fun _ => .pure _
  | greater => exact (less_interpreted b a).bind fun _ => .pure _
  | atLeast => exact (atMost_interpreted b a).bind fun _ => .pure _
  | _ => exact arithmetic_interpreted _ a b originA originB

theorem faultText_interpreted (index : Nat) : Interpreted call (faultText index) := by
  refine (Interpreted.fault index).bind fun f => ?_
  split <;> exact .pure _

theorem text_interpreted (v : Value) : Interpreted call (text call v) := by
  refine (metamethod_interpreted v _).bind fun found => .ite ?_ ?_
  · refine (Interpreted.call _ _ _).bind fun shown => ?_
    split
    · exact .pure _
    · exact raiseAt_interpreted _ _
  · split
    · exact .pure _
    · exact .pure _
    · exact .pure _
    · exact (faultText_interpreted _).bind fun _ => .pure _
    · split
      · exact .pure _
      · exact (typeName_interpreted _).bind fun _ => .pure _

end ScriptM

end ScriptHost
