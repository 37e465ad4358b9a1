import ScriptHost.Proofs.InterpretedOperators

/-!
# The standard functions are interpreted

The functions of the language itself do nothing that operators, calls and the parts of the machine
do not do.
-/

namespace ScriptHost

open MachineM ScriptM

variable {call : Caller}

namespace Library

variable {α : Type}

/-! ## Arguments -/

theorem globalName?_interpreted (callee : Value) : Interpreted call (globalName? callee) :=
  .bind .get fun _ => .pure _

theorem badArgument_interpreted (place : Nat) (complaint : String) :
    Interpreted call (badArgument place complaint : ScriptM α) := by
  refine .bind .get fun s => .ite (raiseAt_interpreted _ _) (.ite ?_ ?_)
  · exact (globalName?_interpreted _).bind fun _ => .bind (.pure _) fun _ => raiseAt_interpreted _ _
  · exact .bind (.pure _) fun _ => raiseAt_interpreted _ _

theorem foundType_interpreted (args : List Value) (place : Nat) :
    Interpreted call (foundType args place) := by
  unfold foundType
  split
  · exact .pure _
  · exact .pure _
  · exact typeName_interpreted _

theorem badType_interpreted (args : List Value) (place : Nat) (expected : String) :
    Interpreted call (badType args place expected : ScriptM α) :=
  (foundType_interpreted args place).bind fun _ => badArgument_interpreted _ _

theorem checkAny_interpreted (args : List Value) (place : Nat) :
    Interpreted call (checkAny args place) :=
  .ite (badArgument_interpreted _ _) (.pure _)

theorem checkTable_interpreted (args : List Value) (place : Nat) :
    Interpreted call (checkTable args place) := by
  unfold checkTable
  split
  · exact .pure _
  · exact badType_interpreted _ _ _

theorem checkBytes_interpreted (args : List Value) (place : Nat) :
    Interpreted call (checkBytes args place) := by
  unfold checkBytes
  split
  · exact .pure _
  · exact badType_interpreted _ _ _

theorem checkInteger_interpreted (args : List Value) (place : Nat) :
    Interpreted call (checkInteger args place) := by
  unfold checkInteger
  dsimp only
  split
  · exact .pure _
  · exact badArgument_interpreted _ _
  · exact badType_interpreted _ _ _

theorem optional_interpreted {check : ScriptM α} (args : List Value) (place : Nat) (default : α)
    (checked : Interpreted call check) : Interpreted call (optional args place default check) :=
  .ite (.pure _) checked

/-! ## Functions that call nothing -/

theorem find_interpreted (args : List Value) : Interpreted call (find args) := by
  refine (checkBytes_interpreted args 1).bind fun subject =>
    (checkBytes_interpreted args 2).bind fun pattern =>
      (optional_interpreted _ _ _ (checkInteger_interpreted args 3)).bind fun start =>
        .ite (.pure _) ?_
  split <;> exact .pure _

theorem select_interpreted (args : List Value) : Interpreted call (select args) := by
  have onward : Interpreted call (do
      let n ← checkInteger args 1
      if n < 0 then
        if args.tail.length < n.natAbs then badArgument 1 "index out of range"
        return args.tail.drop (args.tail.length - n.natAbs)
      else if n = 0 then badArgument 1 "index out of range"
      else return args.tail.drop (n.toNat - 1) : ScriptM (List Value)) :=
    (checkInteger_interpreted args 1).bind fun _ => .ite
      (.guarded (badArgument_interpreted _ _) (.pure _))
      (.ite (badArgument_interpreted _ _) (.pure _))
  unfold select
  split
  · exact .ite (.pure _) onward
  · exact onward

theorem checkMetatable_interpreted (args : List Value) :
    Interpreted call (checkMetatable args) := by
  unfold checkMetatable
  split
  · exact .pure _
  · exact .pure _
  · exact badType_interpreted _ _ _

theorem setMetatable_interpreted (args : List Value) : Interpreted call (setMetatable args) :=
  (checkTable_interpreted args 1).bind fun _ => (checkMetatable_interpreted args).bind fun _ =>
    (metamethod_interpreted _ _).bind fun _ => .guarded (raiseAt_interpreted _ _) <|
      (Interpreted.modifyTable _ _).bind fun _ => .pure _

theorem getMetatable_interpreted (args : List Value) : Interpreted call (getMetatable args) := by
  refine (checkAny_interpreted args 1).bind fun _ => ?_
  split
  · exact .pure _
  · refine (metatable_interpreted _).bind fun found => ?_
    split
    · exact .pure _
    · exact (metamethod_interpreted _ _).bind fun _ => .pure _

theorem error_interpreted (args : List Value) : Interpreted call (error args) := by
  refine (optional_interpreted _ _ _ (checkInteger_interpreted args 2)).bind fun level => ?_
  split
  · exact .ite ((position_interpreted _).bind fun _ => .fail _) (.fail _)
  · exact .fail _

theorem assert_interpreted (args : List Value) : Interpreted call (assert args) := by
  refine .ite (.pure _) ((checkAny_interpreted args 1).bind fun _ => ?_)
  split
  · exact raiseAt_interpreted _ _
  · exact .fail _

theorem nextEntry_interpreted (args : List Value) : Interpreted call (nextEntry args) := by
  refine (checkTable_interpreted args 1).bind fun id => (Interpreted.table id).bind fun t => ?_
  split
  · exact raise_interpreted _
  · exact .pure _
  · exact .pure _

/-! ## Lists -/

theorem lengthOf_interpreted (id : TableId) : Interpreted call (lengthOf call id) := by
  refine (length_interpreted _ _).bind fun length => ?_
  split
  · exact .pure _
  · exact raiseAt_interpreted _ _

theorem item_interpreted (id : TableId) (index : Int) : Interpreted call (item call id index) :=
  index_interpreted _ _ _

theorem setItem_interpreted (id : TableId) (index : Int) (v : Value) :
    Interpreted call (setItem call id index v) := store_interpreted _ _ _ _

theorem concatItems_interpreted (id : TableId) (separator : ByteArray) (count : Nat) (index : Int)
    (done : ByteArray) : Interpreted call (concatItems call id separator count index done) := by
  induction count generalizing index done with
  | zero => exact .pure _
  | succ count ih =>
    refine (item_interpreted id index).bind fun v => ?_
    split
    · exact raiseAt_interpreted _ _
    · exact ih _ _

theorem concat_interpreted (args : List Value) : Interpreted call (concat call args) :=
  (checkTable_interpreted args 1).bind fun id => (lengthOf_interpreted id).bind fun _ =>
    (optional_interpreted _ _ _ (checkBytes_interpreted args 2)).bind fun _ =>
      (optional_interpreted _ _ _ (checkInteger_interpreted args 3)).bind fun _ =>
        (optional_interpreted _ _ _ (checkInteger_interpreted args 4)).bind fun _ =>
          (concatItems_interpreted id _ _ _ _).bind fun _ => .pure _

theorem shiftUp_interpreted (id : TableId) (count : Nat) (last : Int) :
    Interpreted call (shiftUp call id count last) := by
  induction count generalizing last with
  | zero => exact .pure _
  | succ count ih =>
    exact (item_interpreted id last).bind fun _ => (setItem_interpreted id _ _).bind fun _ => ih _

theorem insert_interpreted (args : List Value) : Interpreted call (insert call args) := by
  refine (checkTable_interpreted args 1).bind fun id =>
    (lengthOf_interpreted id).bind fun length => ?_
  split
  · exact (setItem_interpreted id _ _).bind fun _ => .pure _
  · exact (checkInteger_interpreted _ 2).bind fun _ => .guarded (badArgument_interpreted _ _) <|
      (shiftUp_interpreted id _ _).bind fun _ => (setItem_interpreted id _ _).bind fun _ => .pure _
  · exact raiseAt_interpreted _ _

theorem before_interpreted (order a b : Value) : Interpreted call (before call order a b) :=
  .ite (less_interpreted a b) ((Interpreted.call _ _ _).bind fun _ => .pure _)

theorem invalidOrder_interpreted :
    Interpreted call (invalidOrder : ScriptM α) := raiseAt_interpreted _ _

theorem climb_interpreted (order : Value) (id : TableId) (pivot : Value) (last : Int) (fuel : Nat)
    (i : Int) : Interpreted call (climb call order id pivot last fuel i) := by
  induction fuel generalizing i with
  | zero => exact invalidOrder_interpreted
  | succ fuel ih =>
    exact (item_interpreted id i).bind fun _ => (before_interpreted _ _ _).bind fun _ =>
      .ite (.ite invalidOrder_interpreted (ih _)) (.pure _)

theorem sink_interpreted (order : Value) (id : TableId) (pivot : Value) (least : Int) (fuel : Nat)
    (j : Int) : Interpreted call (sink call order id pivot least fuel j) := by
  induction fuel generalizing j with
  | zero => exact invalidOrder_interpreted
  | succ fuel ih =>
    exact (item_interpreted id j).bind fun _ => (before_interpreted _ _ _).bind fun _ =>
      .ite (.ite invalidOrder_interpreted (ih _)) (.pure _)

theorem part_interpreted (order : Value) (id : TableId) (pivot : Value) (up : Int) (fuel : Nat)
    (i j : Int) : Interpreted call (part call order id pivot up fuel i j) := by
  induction fuel generalizing i j with
  | zero => exact .pure _
  | succ fuel ih =>
    exact (climb_interpreted _ _ _ _ _ _).bind fun _ => (sink_interpreted _ _ _ _ _ _).bind fun _ =>
      .ite
        ((setItem_interpreted id _ _).bind fun _ =>
          (setItem_interpreted id _ _).bind fun _ => .pure _)
        ((setItem_interpreted id _ _).bind fun _ =>
          (setItem_interpreted id _ _).bind fun _ => ih _ _)

theorem settle_interpreted (order : Value) (id : TableId) (low high : Int) :
    Interpreted call (settle call order id low high) :=
  (item_interpreted id low).bind fun _ => (item_interpreted id high).bind fun _ =>
    (before_interpreted _ _ _).bind fun _ => .ite
      ((setItem_interpreted id _ _).bind fun _ =>
        (setItem_interpreted id _ _).bind fun _ => .pure _)
      (.pure _)

theorem sortRange_interpreted (order : Value) (id : TableId) (fuel : Nat) (low up : Int) :
    Interpreted call (sortRange call order id fuel low up) := by
  induction fuel generalizing low up with
  | zero => exact .pure _
  | succ fuel ih =>
    have parts (middle : Int) : Interpreted call (do
        if up - low = 2 then return
        let pivot ← item call id middle
        setItem call id middle (← item call id (up - 1))
        setItem call id (up - 1) pivot
        let p ← part call order id pivot up (up - low).toNat low (up - 1)
        if p - low < up - p then
          sortRange call order id fuel low (p - 1)
          sortRange call order id fuel (p + 1) up
        else
          sortRange call order id fuel (p + 1) up
          sortRange call order id fuel low (p - 1) : ScriptM Unit) :=
      .ite (.pure _) <| (item_interpreted id _).bind fun _ => (item_interpreted id _).bind fun _ =>
        (setItem_interpreted id _ _).bind fun _ => (setItem_interpreted id _ _).bind fun _ =>
          (part_interpreted _ _ _ _ _ _ _).bind fun _ =>
            .ite ((ih _ _).bind fun _ => ih _ _) ((ih _ _).bind fun _ => ih _ _)
    exact .ite (.pure _) <| (settle_interpreted order id low up).discard.bind fun _ =>
      .ite (.pure _) <| (settle_interpreted order id low _).bind fun _ =>
        .ite (parts _) ((settle_interpreted order id _ up).discard.bind fun _ => parts _)

theorem sort_interpreted (args : List Value) : Interpreted call (sort call args) := by
  refine (checkTable_interpreted args 1).bind fun id =>
    (lengthOf_interpreted id).bind fun n => .ite ?_ (.pure _)
  have sorted : Interpreted call (do
      sortRange call (arg args 2) id n.toNat 1 n
      return [] : ScriptM (List Value)) := (sortRange_interpreted _ _ _ _ _).bind fun _ => .pure _
  split
  · exact sorted
  · exact sorted
  · exact (badType_interpreted _ _ _).bind fun _ => sorted

theorem ipairsNext_interpreted (args : List Value) : Interpreted call (ipairsNext call args) :=
  (checkInteger_interpreted args 2).bind fun _ => (index_interpreted _ _ _).bind fun _ =>
    .ite (.pure _) (.pure _)

theorem pairs_interpreted (args : List Value) : Interpreted call (pairs call args) :=
  (checkAny_interpreted args 1).bind fun _ => (metamethod_interpreted _ _).bind fun _ => .ite
    (.bind .get fun _ => .pure _) ((Interpreted.call _ _ _).bind fun _ => .pure _)

/-! ## Protected calls and modules -/

theorem pcall_interpreted (args : List Value) : Interpreted call (pcall call args) := by
  refine (checkAny_interpreted args 1).bind fun _ =>
    (Interpreted.attempt (Interpreted.call _ _ _)).bind fun ended => ?_
  split <;> exact .pure _

theorem load_interpreted (chunk : String) (bytes : ByteArray) :
    Interpreted call (load chunk bytes) := by
  refine .bind .get fun s => ?_
  split
  · exact (Interpreted.newCell _).bind fun _ => .newFunction _
  · exact .fail _
  · exact .fail _

theorem loadNamed_interpreted (chunk : String) (bytes : ByteArray) :
    Interpreted call (loadNamed chunk bytes) := by
  unfold loadNamed
  split
  · exact .fail _
  · exact load_interpreted _ _

theorem packagePath_interpreted (field : String) : Interpreted call (packagePath call field) := by
  refine .bind .get fun s => (index_interpreted _ _ _).bind fun path => ?_
  split
  · exact .pure _
  · exact raiseAt_interpreted _ _

theorem fileLoader_interpreted (s : Machine) (name path : String) :
    Interpreted call (fileLoader s name path) := by
  unfold fileLoader
  dsimp only
  split
  · exact raiseAt_interpreted _ _
  · refine (load_interpreted _ _).attempt.bind fun loaded => ?_
    split
    · exact .pure _
    · exact raiseAt_interpreted _ _

theorem searchFiles_interpreted (s : Machine) (name : String) :
    Interpreted call (searchFiles call s name) := by
  refine (packagePath_interpreted _).bind fun path => ?_
  dsimp only
  split
  · exact fileLoader_interpreted _ _ _
  · refine (packagePath_interpreted _).bind fun nativePath => ?_
    split <;> exact raiseAt_interpreted _ _

theorem findLoader_interpreted (name : String) : Interpreted call (findLoader call name) := by
  refine .bind .get fun s => (Interpreted.rawGet _ _).bind fun preload => ?_
  split
  · exact (Interpreted.rawGet _ _).bind fun _ => .ite (searchFiles_interpreted _ _) (.pure _)
  · exact searchFiles_interpreted _ _

theorem require_interpreted (args : List Value) : Interpreted call (require call args) :=
  (checkBytes_interpreted args 1).bind fun _ => .bind .get fun _ =>
    (Interpreted.rawGet _ _).bind fun _ => .ite (.pure _) <|
      (findLoader_interpreted _).bind fun _ => (Interpreted.call _ _ _).bind fun _ =>
        .guarded (.rawSet _ _ _) <| (Interpreted.rawGet _ _).bind fun _ =>
          .guarded (.rawSet _ _ _) <| (Interpreted.rawGet _ _).bind fun _ => .pure _

theorem standard_interpreted (f : Standard) (args : List Value) :
    Interpreted call (standard call f args) := by
  cases f with
  | assert => exact assert_interpreted args
  | error => exact error_interpreted args
  | getMetatable => exact getMetatable_interpreted args
  | ipairs => exact (checkAny_interpreted args 1).bind fun _ => .bind .get fun _ => .pure _
  | ipairsNext => exact ipairsNext_interpreted args
  | next => exact nextEntry_interpreted args
  | pairs => exact pairs_interpreted args
  | pcall => exact pcall_interpreted args
  | print => exact (Interpreted.mapM text_interpreted args).discard.bind fun _ => .pure _
  | rawEqual =>
    exact (checkAny_interpreted args 1).bind fun _ =>
      (checkAny_interpreted args 2).bind fun _ => .pure _
  | rawGet =>
    exact (checkTable_interpreted args 1).bind fun _ => (checkAny_interpreted args 2).bind fun _ =>
      (Interpreted.rawGet _ _).bind fun _ => .pure _
  | rawLen =>
    unfold standard
    dsimp only
    split
    · exact (Interpreted.rawLength _).bind fun _ => .pure _
    · exact .pure _
    · exact badType_interpreted _ _ _
  | rawSet =>
    exact (checkTable_interpreted args 1).bind fun _ => (checkAny_interpreted args 2).bind fun _ =>
      (checkAny_interpreted args 3).bind fun _ => (rawStore_interpreted _ _ _).bind fun _ => .pure _
  | require => exact require_interpreted args
  | select => exact select_interpreted args
  | setMetatable => exact setMetatable_interpreted args
  | toString =>
    exact (checkAny_interpreted args 1).bind fun _ => (text_interpreted _).bind fun _ => .pure _
  | type => exact (checkAny_interpreted args 1).bind fun _ => .pure _
  | mathType =>
    refine (checkAny_interpreted args 1).bind fun _ => ?_
    split <;> exact .pure _
  | stringFind => exact find_interpreted args
  | stringUpper => exact (checkBytes_interpreted args 1).bind fun _ => .pure _
  | tableConcat => exact concat_interpreted args
  | tableInsert => exact insert_interpreted args
  | tableSort => exact sort_interpreted args
  | coroutineCreate =>
    unfold standard
    dsimp only
    split
    · exact (Interpreted.newThread _).bind fun _ => .pure _
    · exact badType_interpreted _ _ _
  | onTexts op => exact (onTexts_interpreted _ _ _ _).bind fun _ => .pure _
  | negateText => exact (onTexts_interpreted _ _ _ _).bind fun _ => .pure _
  | other name => exact raise_interpreted _

end Library

end ScriptHost
