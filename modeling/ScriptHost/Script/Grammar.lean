import ScriptHost.Script.Grammar.Piece

/-!
# Grammar

Programs are read from tokens by recursive descent.  Expressions are read in pieces, so that each
part knows the line on which it runs and the slot that it uses.
-/

namespace ScriptHost

namespace Grammar

def unaryOp? : String → Option UnaryOp
  | "not" => some .not
  | "-" => some .minus
  | "#" => some .length
  | "~" => some .complement
  | _ => none

/-- A binary operator with its binding strength to the left and to the right. -/
def binaryOp? : String → Option (BinaryOp × Nat × Nat)
  | "or" => some (.or, 1, 1)
  | "and" => some (.and, 2, 2)
  | "<" => some (.less, 3, 3)
  | ">" => some (.greater, 3, 3)
  | "<=" => some (.atMost, 3, 3)
  | ">=" => some (.atLeast, 3, 3)
  | "~=" => some (.unequal, 3, 3)
  | "==" => some (.equal, 3, 3)
  | "|" => some (.bitOr, 4, 4)
  | "~" => some (.bitXor, 5, 5)
  | "&" => some (.bitAnd, 6, 6)
  | "<<" => some (.shiftLeft, 7, 7)
  | ">>" => some (.shiftRight, 7, 7)
  | ".." => some (.concat, 9, 8)
  | "+" => some (.add, 10, 10)
  | "-" => some (.sub, 10, 10)
  | "*" => some (.mul, 11, 11)
  | "/" => some (.div, 11, 11)
  | "//" => some (.floorDiv, 11, 11)
  | "%" => some (.mod, 11, 11)
  | "^" => some (.pow, 14, 13)
  | _ => none

def unaryStrength : Nat := 12

/-- What surrounds a statement inside its function. -/
structure Context where
  inLoop : Bool := false
  /-- Whether a loop over an iterator surrounds it, which lets no call take the function's place. -/
  inEach : Bool := false

/-- Names between commas, each of them announced. -/
def nameList : Nat → ParseM (List String)
  | 0 => return []
  | n + 1 => do
    let name ← expectName
    announce
    if ← accept "," then return name :: (← nameList n) else return [name]

/-- The parameters of a function up to the closing parenthesis. -/
def parameters : Nat → ParseM (List String × Bool)
  | 0 => return ([], false)
  | n + 1 => do
    if ← accept "..." then return ([], true)
    match (← current).lexeme with
    | .name text =>
      advance
      announce
      if ← accept "," then
        let (names, variadic) ← parameters n
        return (text :: names, variadic)
      else return ([text], false)
    | _ => fail "<name> expected"

/-- Prepares an expression at the end of a list for any number of values. -/
def openUp (p : Piece) : ParseM Unit :=
  match p.form with
  | .varargs => reserve 1
  | _ => pure ()

/-- Fits a list of expressions, the last of which is a piece, to a number of variables. -/
def fit (wanted count : Nat) (last : Piece) : ParseM Expr := do
  let last ← if last.isOpen then do
      openUp last
      pure last
    else toNext last
  if count < wanted then reserve (wanted - count)
  else modifyLayout fun f => { f with free := f.free - (count - wanted) }
  return last.expr

/-- Whether an earlier target of an assignment uses a variable that is assigned to later. -/
def conflicts (earlier : List Piece) (target : Piece) : Bool :=
  match target.form with
  | .own slot => earlier.any fun p =>
    match p.form with
    | .indexed slots => slots.contains slot
    | _ => false
  | .outer => earlier.any fun p =>
    match p.expr, target.expr with
    | .index (.variable (.outer a _)) (.text _) _, .variable (.outer b _) => a == b
    | _, _ => false
  | _ => false

/-- A table expression as far as it was read. -/
structure Filling where
  /-- The fields, the last one first. -/
  fields : List TableField := []
  /-- The last item, which waits for what follows it. -/
  waiting : Option Piece := none
  /-- How many items wait in slots. -/
  kept : Nat := 0
  items : Nat := 0
  entries : Nat := 0

/-- So many items at a time enter a table. -/
def itemBatch : Nat := 50

/-- Puts the waiting item behind the others; the table in a slot takes a full batch. -/
def Filling.settle (filling : Filling) (slot : Nat) : ParseM Filling := do
  match filling.waiting with
  | none => return filling
  | some p =>
    let p ← toNext p
    let filling := { filling with fields := .item p.expr :: filling.fields, waiting := none }
    if filling.kept = itemBatch then
      modifyLayout ({ · with free := slot + 1 })
      return { filling with kept := 0 }
    else return filling

/-- The fields of a table whose text was read, with the number of items it is made for. -/
def Filling.finish (filling : Filling) (slot : Nat) : ParseM (List TableField × Nat) := do
  let (fields, items) ← match filling.waiting with
    | none => pure (filling.fields, filling.items)
    | some p =>
      if p.isOpen then do
        openUp p
        pure (.item p.expr :: filling.fields, filling.items - 1)
      else do
        let p ← toNext p
        pure (.item p.expr :: filling.fields, filling.items)
  modifyLayout ({ · with free := slot + 1 })
  return (fields.reverse, items)

def tooDeep {α : Type} : ParseM α := throw .tooDeep

mutual

/-- The statements of a block. -/
def block : Nat → Context → ParseM (List Stmt)
  | 0, _ => tooDeep
  | n + 1, c => do
    if ← blockEnds then return []
    if ← at? "return" then return [← deeper (results n c)]
    if ← at? ";" then
      deeper advance
      return ← block n c
    let first ← deeper (statement n c)
    releaseAll
    return first :: (← block n c)

/-- A return statement, which ends its block. -/
def results : Nat → Context → ParseM Stmt
  | 0, _ => tooDeep
  | n + 1, c => do
    advance
    let empty ← do pure ((← blockEnds) || (← at? ";"))
    let s ← if empty then pure (Stmt.result []) else do
      let (before, last) ← exprList n c
      match last.isOpen, last.form with
      | true, .call _ =>
        if before.isEmpty && !c.inEach then pure (Stmt.handOver last.expr)
        else pure (Stmt.result (before ++ [last.expr]))
      | true, _ => do
        openUp last
        pure (Stmt.result (before ++ [last.expr]))
      | false, _ => do
        let last ← if before.isEmpty then toAny last else toNext last
        pure (Stmt.result (before ++ [last.expr]))
    discard (accept ";")
    releaseAll
    return s

def statement : Nat → Context → ParseM Stmt
  | 0, _ => tooDeep
  | n + 1, c => do
    let start ← line
    match ← currentMark with
    | "if" => ifClause n c start
    | "while" =>
      advance
      let condition ← toCondition (← expr n c 0)
      expect "do"
      let body ← enclosed (block n { c with inLoop := true })
      expectClosing "end" "while" start
      return .loop condition body
    | "do" =>
      advance
      let body ← enclosed (block n c)
      expectClosing "end" "do" start
      return .block body
    | "for" =>
      advance
      enclosed (forStatement n c start)
    | "repeat" =>
      advance
      enclosed do
        let body ← block n { c with inLoop := true }
        expectClosing "until" "repeat" start
        return .loopUntil body (← toCondition (← expr n c 0))
    | "function" =>
      advance
      functionStatement n c start
    | "local" =>
      advance
      if ← accept "function" then
        let name ← expectName
        announce
        activate [some name]
        return .localFunction (← routine n false (← line))
      else localStatement n c
    | "break" =>
      unless c.inLoop do throw (.malformed start s!"break outside a loop at line {start}")
      advance
      return .leave
    | _ => expressionStatement n c

/-- What begins with `if` or `elseif`. -/
def ifClause : Nat → Context → Nat → ParseM Stmt
  | 0, _, _ => tooDeep
  | n + 1, c, start => do
    advance
    let p ← expr n c 0
    expect "then"
    let condition ← toCondition p
    let body ← enclosed (block n c)
    if ← at? "elseif" then return .branch condition body [← ifClause n c start]
    else if ← accept "else" then
      let otherwise ← enclosed (block n c)
      expectClosing "end" "if" start
      return .branch condition body otherwise
    else
      expectClosing "end" "if" start
      return .branch condition body []

def localStatement : Nat → Context → ParseM Stmt
  | 0, _ => tooDeep
  | n + 1, c => do
    let names ← nameList (n + 1)
    let values ← if ← accept "=" then do
        let (before, last) ← exprList n c
        let last ← fit names.length (before.length + 1) last
        pure (before ++ [last])
      else do
        reserve names.length
        pure []
    activate (names.map some)
    return .locals names.length values

def forStatement : Nat → Context → Nat → ParseM Stmt
  | 0, _, _ => tooDeep
  | n + 1, c, start => do
    let name ← expectName
    if ← at? "=" then
      for _ in List.range 4 do announce
      advance
      let first ← toNext (← expr n c 0)
      expect ","
      let limit ← toNext (← expr n c 0)
      let step ← if ← accept "," then do
          pure (some (← toNext (← expr n c 0)).expr)
        else do
          reserve 1
          pure none
      activate [none, none, none]
      expect "do"
      let prepared ← lastLine
      let body ← forBody n { c with inLoop := true } [name]
      expectClosing "end" "for" start
      return .countFor first.expr limit.expr step body prepared
    else
      for _ in List.range 5 do announce
      let more ← if ← accept "," then nameList (n + 1) else
        if ← at? "in" then pure [] else fail "'=' or 'in' expected"
      expect "in"
      let called ← line
      let (before, last) ← exprList n c
      let last ← fit 4 (before.length + 1) last
      activate [none, none, none, none]
      reserve 3
      modifyLayout fun f => { f with free := f.free - 3 }
      expect "do"
      let prepared ← lastLine
      let body ← forBody n ⟨true, true⟩ (name :: more)
      expectClosing "end" "for" start
      return .eachFor (name :: more).length (before ++ [last]) body called prepared

/-- The body of a loop that has variables. -/
def forBody : Nat → Context → List String → ParseM (List Stmt)
  | 0, _, _ => tooDeep
  | n + 1, c, names => enclosed do
    activate (names.map some)
    reserve names.length
    block n c

/-- A definition of a global function, of a field or of a method. -/
def functionStatement : Nat → Context → Nat → ParseM Stmt
  | 0, _, _ => tooDeep
  | n + 1, _, start => do
    let target ← fieldPath n (← namePiece (← expectName))
    if ← at? ":" then
      let subject ← toAnyOrOuter target
      advance
      let target ← indexed subject (Piece.text (← expectName))
      return .assign [target.expr] [.function (← routine n true start)] start
    else return .assign [target.expr] [.function (← routine n false start)] start

def fieldPath : Nat → Piece → ParseM Piece
  | 0, _ => tooDeep
  | n + 1, target => do
    if ← at? "." then
      let subject ← toAnyOrOuter target
      advance
      fieldPath n (← indexed subject (Piece.text (← expectName)))
    else return target

def expressionStatement : Nat → Context → ParseM Stmt
  | 0, _ => tooDeep
  | n + 1, c => do
    let p ← suffixed n c
    if (← at? "=") || (← at? ",") then assignment n c [p]
    else
      match p.form with
      | .call _ => return .call p.expr
      | _ => fail "syntax error"

/-- An assignment after its first targets, the last of which comes first. -/
def assignment : Nat → Context → List Piece → ParseM Stmt
  | 0, _, _ => tooDeep
  | n + 1, c, targets => do
    let target := targets.head?.getD (Piece.constant .nil)
    unless target.isPlace do fail "syntax error"
    if ← accept "," then
      let next ← suffixed n c
      if conflicts targets next then reserve 1
      deeper (assignment n c (next :: targets))
    else
      expect "="
      let (before, last) ← exprList n c
      let count := before.length + 1
      let last ← if count = targets.length then toStored target last
        else fit targets.length count last
      return .assign (targets.reverse.map (·.expr)) (before ++ [last]) (← lastLine)

/-- Expressions between commas: all but the last, and the piece of the last. -/
def exprList : Nat → Context → ParseM (List Expr × Piece)
  | 0, _ => tooDeep
  | n + 1, c => do
    let p ← expr n c 0
    if ← accept "," then
      let p ← toNext p
      let (more, last) ← exprList n c
      return (p.expr :: more, last)
    else return ([], p)

/-- An expression whose operators bind more strongly than the limit. -/
def expr : Nat → Context → Nat → ParseM Piece
  | 0, _, _ => tooDeep
  | n + 1, c, limit => deeper do
    let start ← line
    let left ← match unaryOp? (← currentMark) with
      | some op => do
        advance
        combineUnary op (← expr n c unaryStrength) start
      | none => simple n c
    operators n c limit left

/-- The operators that follow a left operand. -/
def operators : Nat → Context → Nat → Piece → ParseM Piece
  | 0, _, _, _ => tooDeep
  | n + 1, c, limit, left => do
    match binaryOp? (← currentMark) with
    | some (op, strength, right) =>
      if strength > limit then
        let here ← line
        advance
        let left ← toOperand op left
        let operand ← expr n c right
        operators n c limit (← combine op left operand here)
      else return left
    | none => return left

def simple : Nat → Context → ParseM Piece
  | 0, _ => tooDeep
  | n + 1, c => do
    match (← current).lexeme with
    | .number value =>
      advance
      return Piece.constant (.number value)
    | .text bytes =>
      advance
      return Piece.constant (.text bytes)
    | .mark "nil" =>
      advance
      return Piece.constant .nil
    | .mark "true" =>
      advance
      return Piece.constant (.bool true)
    | .mark "false" =>
      advance
      return Piece.constant (.bool false)
    | .mark "..." =>
      unless (← layout).variadic do fail "cannot use '...' outside a vararg function"
      advance
      return ⟨.varargs, .varargs, false⟩
    | .mark "\x7b" => tableExpr n c
    | .mark "function" =>
      advance
      let r ← routine n false (← line)
      return ⟨.function r, .fixed ((← layout).free - 1), false⟩
    | _ => suffixed n c

/-- A name or an expression in parentheses. -/
def primary : Nat → Context → ParseM Piece
  | 0, _ => tooDeep
  | n + 1, c => do
    match (← current).lexeme with
    | .name text =>
      advance
      namePiece text
    | .mark "(" =>
      let start ← line
      advance
      let inner ← expr n c 0
      expectClosing ")" "(" start
      let p ← discharge inner
      match inner.form with
      | .outer | .call _ | .varargs => return { p with expr := .paren p.expr }
      | _ => return p
    | _ => fail "unexpected symbol"

def suffixed : Nat → Context → ParseM Piece
  | 0, _ => tooDeep
  | n + 1, c => do
    let p ← primary n c
    suffixes n c p

def suffixes : Nat → Context → Piece → ParseM Piece
  | 0, _, _ => tooDeep
  | n + 1, c, p => do
    match (← current).lexeme with
    | .mark "." =>
      let p ← toAnyOrOuter p
      advance
      suffixes n c (← indexed p (Piece.text (← expectName)))
    | .mark "[" =>
      let p ← toAnyOrOuter p
      advance
      let key ← toValue (← expr n c 0)
      expect "]"
      suffixes n c (← indexed p key)
    | .mark ":" =>
      advance
      let name ← expectName
      let found ← lastLine
      let (p, slot) ← toReceiver p
      let called ← line
      let args ← arguments n c
      suffixes n c (← callPiece (.send p.expr name.toByteArray args found called slot) slot)
    | .mark "(" | .mark "\x7b" | .text _ =>
      let (p, slot) ← toCallee p
      let called ← line
      let args ← arguments n c
      suffixes n c (← callPiece (.call p.expr args called slot) slot)
    | _ => return p

def arguments : Nat → Context → ParseM (List Expr)
  | 0, _ => tooDeep
  | n + 1, c => do
    match (← current).lexeme with
    | .text bytes =>
      advance
      return [(← toNext (Piece.constant (.text bytes))).expr]
    | .mark "\x7b" => return [(← tableExpr n c).expr]
    | .mark "(" =>
      let start ← line
      advance
      if ← at? ")" then
        advance
        return []
      let (before, last) ← exprList n c
      if last.isOpen then openUp last
      expectClosing ")" "(" start
      let last ← if last.isOpen then pure last else toNext last
      return before ++ [last.expr]
    | _ => fail "function arguments expected"

def tableExpr : Nat → Context → ParseM Piece
  | 0, _ => tooDeep
  | n + 1, c => do
    let start ← line
    reserve 1
    let slot := (← layout).free - 1
    expect "\x7b"
    let filling ← tableFields n c slot {}
    expectClosing "\x7d" "\x7b" start
    let (fields, items) ← filling.finish slot
    return ⟨.table fields items filling.entries, .fixed slot, false⟩

def tableFields : Nat → Context → Nat → Filling → ParseM Filling
  | 0, _, _, _ => tooDeep
  | n + 1, c, slot, filling => do
    if ← at? "\x7d" then return filling
    let filling ← tableField n c slot (← filling.settle slot)
    if (← accept ",") || (← accept ";") then tableFields n c slot filling
    else return filling

def tableField : Nat → Context → Nat → Filling → ParseM Filling
  | 0, _, _, _ => tooDeep
  | n + 1, c, slot, filling => do
    match (← current).lexeme with
    | .name text =>
      match (← lookAhead).lexeme with
      | .mark "=" =>
        advance
        entry n c slot filling (Piece.text text) (← layout).free
      | _ => item n c filling
    | .mark "[" =>
      let free := (← layout).free
      advance
      let key ← toValue (← expr n c 0)
      expect "]"
      entry n c slot filling key free
    | _ => item n c filling

/-- An entry of a table in a slot, after its key. -/
def entry : Nat → Context → Nat → Filling → Piece → Nat → ParseM Filling
  | 0, _, _, _, _, _ => tooDeep
  | n + 1, c, slot, filling, key, free => do
    expect "="
    let place ← indexed ⟨.nil, .fixed slot, false⟩ key
    let value ← toStored place (← expr n c 0)
    modifyLayout ({ · with free := free })
    return { filling with
      fields := .entry key.expr value (← lastLine) :: filling.fields
      entries := filling.entries + 1 }

def item : Nat → Context → Filling → ParseM Filling
  | 0, _, _ => tooDeep
  | n + 1, c, filling => do
    let p ← expr n c 0
    return { filling with
      waiting := some p, kept := filling.kept + 1, items := filling.items + 1 }

/-- A function from its parameters on, which takes the next slot of the function around. -/
def routine : Nat → Bool → Nat → ParseM Routine
  | 0, _, _ => tooDeep
  | n + 1, isMethod, start => do
    modify fun s => { s with functions := { line := start } :: s.functions }
    expect "("
    if isMethod then
      announce
      activate [some "self"]
    let (names, variadic) ← if ← at? ")" then pure ([], false) else parameters (n + 1)
    activate (names.map some)
    modifyLayout ({ · with variadic })
    reserve (← layout).locals.length
    expect ")"
    let count := (← layout).locals.length
    let body ← block n {}
    expectClosing "end" "function" start
    let f ← layout
    modify fun s => { s with functions := s.functions.tail }
    reserve 1
    return .mk count variadic body f.outer f.slots

end

/-- Reading descends at most this often for each token. -/
def depthOf (tokens : List Token) : Nat := 16 * tokens.length + 16

/-- A whole program, which takes any number of arguments. -/
def program (depth : Nat) : ParseM Routine := do
  admissible (← current)
  let body ← block depth {}
  match (← current).lexeme with
  | .finish =>
    let f ← layout
    return .mk 0 true body f.outer f.slots
  | _ => fail "<eof> expected"

end Grammar

/--
Reads a program that uses the given variables of its surroundings; the error is that of the first
token that does not fit.  The reading itself starts at some level.
-/
def Routine.ofTokens (tokens : List Token) (given : List String) (level : Nat) :
    Except GrammarError Routine :=
  match tokens with
  | [] => .ok default
  | first :: rest =>
    let main : Grammar.Layout := { variadic := true, outer := given.map (.outer 0) }
    let start : Grammar.Cursor := ⟨first, rest, first.line, 1, [main], level⟩
    match (Grammar.program (Grammar.depthOf (first :: rest))).run start with
    | .ok (routine, _) => .ok routine
    | .error e => .error e

def Routine.ofBytes (bytes : ByteArray) (given : List String) (level : Nat) :
    Except GrammarError Routine :=
  ofTokens (Token.ofBytes bytes) given level

/-- The most bytes that a chunk name keeps in messages. -/
def chunkNameLimit : Nat := 59

/-- The name of a chunk in messages: a given name is cut at its end, a path at its start. -/
def chunkText (name : String) : ByteArray :=
  let text := name.toByteArray.toList
  match text with
  | 61 :: given => .mk (given.take chunkNameLimit).toArray
  | 64 :: path =>
    if path.length ≤ chunkNameLimit then .mk path.toArray
    else .mk ([46, 46, 46] ++ path.drop (path.length - (chunkNameLimit - 3))).toArray
  | _ => ("[string \"" ++ name ++ "\"]").toByteArray

end ScriptHost
