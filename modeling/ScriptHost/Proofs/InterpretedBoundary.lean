import ScriptHost.Proofs.InterpretedLibrary

/-!
# The boundary is interpreted

Values cross between scripts and the host, and functions of the host run, without a step of their
own on the resolvers.
-/

namespace ScriptHost

open MachineM

variable {call : Caller} {ε : Type}

/-! ## Errors that leave scripts -/

namespace ScriptM

variable {α : Type}

theorem spend_interpreted (index : Nat) : Interpreted call (spend index : MachineM ε Unit) :=
  .change (fun _ => .spend index) fun _ => ⟨rfl, rfl, fun _ => rfl⟩

theorem receive_interpreted (v : Value) : Interpreted call (receive v : MachineM ε Value) := by
  unfold receive
  split
  · refine (Interpreted.fault _).bind fun f => ?_
    split
    · exact .pure _
    · exact (spend_interpreted _).bind fun _ => .throw _
    · exact .newFault _
  · exact .pure _

theorem send_interpreted (v : Value) : Interpreted call (send v : MachineM ε Value) := by
  unfold send
  split
  · exact (Interpreted.fault _).bind fun _ => .newFault _
  · exact .pure _

theorem leave_interpreted (fuel : Nat) (v : Value) :
    Interpreted call (leave call fuel v : MachineM ScriptError α) := by
  induction fuel generalizing v with
  | zero =>
    unfold leave
    split
    · refine (Interpreted.fault _).bind fun f => ?_
      split
      · exact .fail _
      · exact (spend_interpreted _).bind fun _ => .throw _
      · exact .fail _
    · exact .fail _
  | succ fuel ih =>
    unfold leave
    split
    · refine (Interpreted.fault _).bind fun f => ?_
      split
      · exact .fail _
      · exact (spend_interpreted _).bind fun _ => .throw _
      · exact .fail _
    · refine (text_interpreted v).attempt.bind fun result => ?_
      split
      · exact .fail _
      · exact ih _

theorem protect_interpreted {m : ScriptM α} (inner : Interpreted call m) :
    Interpreted call (protect call m) := by
  refine inner.attempt.bind fun result => ?_
  split
  · exact .pure _
  · exact leave_interpreted _ _

theorem runFor_interpreted (f : Value) (args : List Value) :
    Interpreted call (runFor call f args) :=
  (Interpreted.mapM send_interpreted args).bind fun _ => protect_interpreted (.call _ _ _)

theorem callFor_interpreted (f : Value) (args : List Value) :
    Interpreted call (callFor call f args) :=
  (runFor_interpreted f args).bind fun _ => .mapM receive_interpreted _

theorem firstFor_interpreted (f : Value) (args : List Value) :
    Interpreted call (firstFor call f args) :=
  (runFor_interpreted f args).bind fun _ => receive_interpreted _

theorem indexFor_interpreted (subject key : Value) : Interpreted call (indexFor call subject key) :=
  (send_interpreted _).bind fun _ => (protect_interpreted (index_interpreted _ _ _)).bind fun _ =>
    receive_interpreted _

theorem globalFor_interpreted (name : String) : Interpreted call (globalFor call name) :=
  .bind .get fun _ => indexFor_interpreted _ _

theorem setGlobalFor_interpreted (name : String) (v : Value) :
    Interpreted call (setGlobalFor call name v) :=
  .bind .get fun _ => (send_interpreted _).bind fun _ => (send_interpreted _).bind fun _ =>
    protect_interpreted (store_interpreted _ _ _ _)

end ScriptM

/-! ## Values across the boundary -/

namespace Crossing

open ScriptM

theorem markProxy_interpreted (id : TableId) (handle : Handle) :
    Interpreted call (markProxy id handle) :=
  .change (fun _ => .proxy _ _ _) fun _ => ⟨rfl, rfl, fun _ => rfl⟩

theorem proxyOfPointer_interpreted (target : Option ObjectId) :
    Interpreted call (proxyOfPointer target) :=
  (Interpreted.newTable _).bind fun _ => .bind .get fun _ =>
    (markProxy_interpreted _ _).bind fun _ =>
    .pure _

theorem textKey_interpreted (v : HostValue) : Interpreted call (textKey v) := .onObjects _ _

theorem key_interpreted (v : HostValue) : Interpreted call (key v) := by
  unfold key
  split
  case h_5 => exact .ite (.fail _) (.pure _)
  case h_7 => exact (textKey_interpreted _).bind fun _ => .pure _
  all_goals first | exact .fail _ | exact .pure _

section

variable {object : ObjectId → CrossingM Value}

mutual

theorem value_interpreted (structures : ∀ o, Interpreted call (object o)) :
    ∀ v : HostValue, Interpreted call (value object v)
  | .nil | .bool _ | .int _ | .float _ | .str _ => .pure _
  | .list items => (Interpreted.newTable _).bind fun id =>
      (putItems_interpreted structures id 1 items).bind fun _ => .pure _
  | .map pairs => (Interpreted.newTable _).bind fun id =>
      (putPairs_interpreted structures id pairs).bind fun _ => .pure _
  | .struct o => structures o
  | .ptr target => (proxyOfPointer_interpreted target).bind fun _ => .pure _
  | .foreign _ => .fail _

theorem putItems_interpreted (structures : ∀ o, Interpreted call (object o)) (id : TableId)
    (index : Nat) :
    ∀ items : List HostValue, Interpreted call (putItems object id index items)
  | [] => .pure _
  | item :: rest =>
    (value_interpreted structures item).bind fun _ => (Interpreted.rawSet _ _ _).bind fun _ =>
      putItems_interpreted structures id (index + 1) rest

theorem putPairs_interpreted (structures : ∀ o, Interpreted call (object o)) (id : TableId) :
    ∀ pairs : List (HostValue × HostValue), Interpreted call (putPairs object id pairs)
  | [] => .pure _
  | (k, item) :: rest =>
    (key_interpreted k).bind fun _ => (value_interpreted structures item).bind fun _ =>
      (Interpreted.rawSet _ _ _).bind fun _ => putPairs_interpreted structures id rest

end

mutual

theorem datum_interpreted (structures : ∀ o, Interpreted call (object o)) :
    ∀ d : Datum, Interpreted call (datum object d)
  | .bool _ | .int _ | .size _ | .float _ | .text _ | .absent => .pure _
  | .object _ => (proxyOfPointer_interpreted _).bind fun _ => .pure _
  | .any v => value_interpreted structures v
  | .record shape fields => .bind (.onObjects _ _) fun _ => (Interpreted.newTable _).bind fun id =>
      (putFields_interpreted structures id shape.fields fields).bind fun _ =>
        (markProxy_interpreted _ _).bind fun _ => .pure _
  | .present content => datum_interpreted structures content
  | .list items => (Interpreted.newTable _).bind fun id =>
      (putData_interpreted structures id 1 items).bind fun _ => .pure _
  | .map entries => (Interpreted.newTable _).bind fun id =>
      (putEntries_interpreted structures id entries).bind fun _ => .pure _

theorem putData_interpreted (structures : ∀ o, Interpreted call (object o)) (id : TableId)
    (index : Nat) :
    ∀ items : List Datum, Interpreted call (putData object id index items)
  | [] => .pure _
  | item :: rest =>
    (datum_interpreted structures item).bind fun _ => (Interpreted.rawSet _ _ _).bind fun _ =>
      putData_interpreted structures id (index + 1) rest

theorem putEntries_interpreted (structures : ∀ o, Interpreted call (object o)) (id : TableId) :
    ∀ entries : List (String × Datum), Interpreted call (putEntries object id entries)
  | [] => .pure _
  | (_, item) :: rest =>
    (datum_interpreted structures item).bind fun _ => (Interpreted.rawSet _ _ _).bind fun _ =>
      putEntries_interpreted structures id rest

theorem putFields_interpreted (structures : ∀ o, Interpreted call (object o)) (id : TableId)
    (declared : List Field) :
    ∀ items : List Datum, Interpreted call (putFields object id declared items)
  | [] => .pure _
  | item :: rest =>
    match declared with
    | [] => .pure _
    | field :: declared => by
      have others := putFields_interpreted structures id declared rest
      exact .ite ((datum_interpreted structures item).bind fun _ =>
        (Interpreted.rawSet _ _ _).bind fun _ => others) others

end

theorem putObject_interpreted (structures : ∀ o, Interpreted call (object o)) (id : TableId)
    (o : ObjectId) : Interpreted call (putObject object id o) :=
  .bind (.onObjects _ _) fun _ => putFields_interpreted structures _ _ _

end

theorem proxyOfStruct_interpreted (depth : Nat) (o : ObjectId) :
    Interpreted call (proxyOfStruct depth o) := by
  induction depth generalizing o with
  | zero => exact .throw _
  | succ depth ih =>
    exact (Interpreted.newTable _).bind fun id => (putObject_interpreted ih id o).bind fun _ =>
      .bind .get fun _ => (markProxy_interpreted _ _).bind fun _ => .pure _

theorem structure?_interpreted (o : ObjectId) : Interpreted call (structure? o) :=
  .bind .get fun _ => proxyOfStruct_interpreted _ o

theorem toScript_interpreted (v : HostValue) : Interpreted call (toScript v) :=
  value_interpreted structure?_interpreted v

theorem fieldTable_interpreted (o : ObjectId) : Interpreted call (fieldTable o) :=
  (Interpreted.newTable _).bind fun id =>
    (putObject_interpreted structure?_interpreted id o).bind fun _ => .pure _

theorem receiveEntry_interpreted (entry : Value × Value) : Interpreted call (receiveEntry entry) :=
  (receive_interpreted _).bind fun _ => (receive_interpreted _).bind fun _ => .pure _

theorem entriesOf_interpreted (id : TableId) : Interpreted call (entriesOf id) :=
  (Interpreted.table id).bind fun _ => .mapM receiveEntry_interpreted _

theorem contents_interpreted {convert : Value → CrossingM HostValue}
    (converts : ∀ v, Interpreted call (convert v)) (entries : List (Value × Value)) :
    Interpreted call (contents convert entries) := by
  unfold contents
  split
  · exact (Interpreted.mapM converts _).bind fun _ => .pure _
  · exact (Interpreted.mapM (fun _ => (converts _).bind fun _ =>
      (textKey_interpreted _).bind fun _ =>
      (converts _).bind fun _ => .pure _) _).bind fun _ => .pure _

theorem hostValue_interpreted (depth : Nat) (passed : List TableId) (v : Value) :
    Interpreted call (hostValue depth passed v) := by
  induction depth generalizing passed v with
  | zero =>
    unfold hostValue
    split
    case h_4 => split <;> exact .pure _
    case h_6 =>
      refine .bind .get fun s => ?_
      split
      · exact .pure _
      · exact .ite (.fail _) (.fail _)
    all_goals exact .pure _
  | succ depth ih =>
    unfold hostValue
    split
    case h_4 => split <;> exact .pure _
    case h_6 =>
      refine .bind .get fun s => ?_
      split
      · exact .pure _
      · exact .ite (.fail _) ((entriesOf_interpreted _).bind fun _ => contents_interpreted (ih _) _)
    all_goals exact .pure _

theorem toHost_interpreted (v : Value) : Interpreted call (toHost v) := hostValue_interpreted _ _ v

theorem assignEntry_interpreted (target : ObjectId) (policy : AssignPolicy) (k v : Value) :
    Interpreted call (assignEntry target policy k v) := by
  unfold assignEntry
  split
  · refine .bind .get fun s => ?_
    split
    · exact .pure _
    · refine .guarded (.fail _) <| (toHost_interpreted v).bind fun found => ?_
      split
      · exact .onObjects _ _
      · split
        · exact .pure _
        · exact .fail _
  · exact .pure _

theorem assign_interpreted (target : ObjectId) (id : TableId) (policy : AssignPolicy) :
    Interpreted call (assign target id policy) :=
  (Interpreted.table id).bind fun _ => .forM (fun entry =>
    (receiveEntry_interpreted entry).bind fun _ => assignEntry_interpreted _ _ _ _) _

end Crossing

end ScriptHost
