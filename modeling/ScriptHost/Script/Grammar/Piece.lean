import ScriptHost.Script.Arithmetic
import ScriptHost.Script.Grammar.Cursor

/-!
# Pieces of expressions

An expression that was read is not computed at once: its piece tells what is still to be done for
its value and which slots of the frame that takes.  What is done last decides the line of a message:
an index is read, and a value is stored, on the line of the token passed last.
-/

namespace ScriptHost

namespace Grammar

/-- Where the value of a piece is. -/
inductive Form where
  /-- Nowhere yet: it is known from the text. -/
  | constant
  | fixed (slot : Nat)
  /-- In a variable of the function. -/
  | own (slot : Nat)
  /-- In a variable of a function around. -/
  | outer
  /-- Under a key of a table, with the slots that the two take. -/
  | indexed (slots : List Nat)
  /-- Nowhere: the piece is a condition. -/
  | test
  /-- Wherever it is wanted. -/
  | loose
  | call (slot : Nat)
  | varargs

structure Piece where
  expr : Expr
  form : Form
  /-- Whether the value may have come from an operand that ended the evaluation early. -/
  branches : Bool := false

namespace Piece

def constant (e : Expr) : Piece := ⟨e, .constant, false⟩

def text (s : String) : Piece := constant (.text s.toByteArray)

def isConstant (p : Piece) : Bool :=
  match p.form with
  | .constant => !p.branches
  | _ => false

def numeral? (p : Piece) : Option Numeral :=
  match p.expr, p.isConstant with
  | .number n, true => some n
  | _, _ => none

/-- Whether a piece is a numeral that an instruction itself can hold. -/
def isShort (p : Piece) : Bool :=
  match p.numeral?.bind Arithmetic.integral? with
  | some i => -127 ≤ i.toInt ∧ i.toInt ≤ 128
  | none => false

/-- The longest text that a field is found under without a slot for its name. -/
def nameLimit : Nat := 40

def isFieldName (p : Piece) : Bool :=
  match p.expr, p.isConstant with
  | .text bytes, true => bytes.size ≤ nameLimit
  | _, _ => false

def isSmallIndex (p : Piece) : Bool :=
  match p.expr, p.isConstant with
  | .number (.integer i), true => 0 ≤ i.toInt ∧ i.toInt ≤ 255
  | _, _ => false

/-- Whether a piece may have any number of values. -/
def isOpen (p : Piece) : Bool :=
  match p.form with
  | .call _ | .varargs => !p.branches
  | _ => false

/-- Whether a piece can be assigned to. -/
def isPlace (p : Piece) : Bool :=
  match p.form with
  | .own _ | .outer | .indexed _ => !p.branches
  | _ => false

end Piece

/-- An index as it is read on a line. -/
def onLine (line : Nat) : Expr → Expr
  | .index subject key _ => .index subject key line
  | e => e

/-- An expression with one value. -/
def single : Expr → Expr
  | .varargs => .paren .varargs
  | .call callee args line slot => .paren (.call callee args line slot)
  | .send subject method args nameLine line slot =>
    .paren (.send subject method args nameLine line slot)
  | e => e

/-- Reads the value of a piece out of variables and tables. -/
def discharge (p : Piece) : ParseM Piece := do
  match p.form with
  | .own slot | .call slot => return { p with form := .fixed slot }
  | .outer | .varargs => return { p with form := .loose }
  | .indexed slots =>
    slots.forM release
    return { p with expr := onLine (← lastLine) p.expr, form := .loose }
  | _ => return p

/-- Gives back the slot of a value that is needed no more. -/
def drop (p : Piece) : ParseM Unit :=
  match p.form with
  | .fixed slot => release slot
  | _ => pure ()

/-- Puts the value of a piece in the next slot. -/
def toNext (p : Piece) : ParseM Piece := do
  let p ← discharge p
  drop p
  reserve 1
  return { p with form := .fixed ((← layout).free - 1), branches := false }

/-- Puts the value of a piece in some slot. -/
def toAny (p : Piece) : ParseM Piece := do
  let p ← discharge p
  match p.form with
  | .fixed slot =>
    if !p.branches then return p
    else if (← layout).locals.length ≤ slot then return { p with branches := false }
    else toNext p
  | _ => toNext p

/-- Puts the value of a piece in some slot unless it is in a variable of a function around. -/
def toAnyOrOuter (p : Piece) : ParseM Piece :=
  match p.form, p.branches with
  | .outer, false => pure p
  | _, _ => toAny p

/-- Makes a piece a value. -/
def toValue (p : Piece) : ParseM Piece :=
  match p.form, p.branches with
  | .test, _ | _, true => toAny p
  | _, false => discharge p

def slotsOf (p : Piece) : List Nat :=
  match p.form with
  | .fixed slot | .own slot => [slot]
  | _ => []

/-- The place under a key. -/
def indexed (subject key : Piece) : ParseM Piece := do
  let expr := Expr.index subject.expr key.expr 0
  match key.isFieldName, subject.form with
  | true, _ => return ⟨expr, .indexed (slotsOf subject), false⟩
  | false, .outer => withKey expr (← toAny subject) key
  | false, _ => withKey expr subject key
where
  withKey (expr : Expr) (subject key : Piece) : ParseM Piece := do
    if key.isSmallIndex then return ⟨expr, .indexed (slotsOf subject), false⟩
    let key ← toAny key
    return ⟨expr, .indexed (slotsOf subject ++ slotsOf key), false⟩

/-- The variable that a name stands for; a name that no function knows is a field of `_ENV`. -/
def namePiece (name : String) : ParseM Piece := do
  match ← found name with
  | some p => return p
  | none =>
    let environment := (← found "_ENV").getD (Piece.constant .nil)
    indexed (← toAnyOrOuter environment) (Piece.text name)
where
  found (name : String) : ParseM (Option Piece) := do
    match ← resolve? name with
    | none => return none
    | some (.own place name) =>
      let slot := Layout.slotOf name (← layout).locals
      return some ⟨.variable (.own place name), .own slot, false⟩
    | some (.outer place name) => return some ⟨.variable (.outer place name), .outer, false⟩

/-- Whether the first operand of `and` or `or` never decides the result. -/
def passes (op : BinaryOp) (p : Piece) : Bool :=
  p.isConstant &&
    match op, p.expr with
    | .and, .bool b => b
    | .and, .number _ | .and, .text _ => true
    | .or, .nil => true
    | .or, .bool b => !b
    | _, _ => false

/-- Makes a piece the condition of a jump. -/
def toTest (op : BinaryOp) (p : Piece) : ParseM Piece := do
  let p ← discharge p
  if passes op p then return p
  match p.form, p.expr with
  | .test, _ | .loose, .unary .not _ _ => return p
  | .fixed slot, _ =>
    release slot
    return p
  | _, _ =>
    reserve 1
    release ((← layout).free - 1)
    return p

/-- Makes a piece the condition under which the code that follows runs. -/
def toCondition (p : Piece) : ParseM Expr := do return (← toTest .and p).expr

/-- What is done for the first operand of an operator before the second is read. -/
def toOperand (op : BinaryOp) (p : Piece) : ParseM Piece := do
  let p ← discharge p
  match op with
  | .and | .or => toTest op p
  | .concat => toNext p
  | .equal | .unequal => if p.isConstant then return p else toAny p
  | .less | .atMost | .greater | .atLeast => if p.isShort then return p else toAny p
  | _ => if p.numeral?.isSome then return p else toAny p

/-- A chain of concatenations runs as one, on the line of its last operator. -/
def chainLine (right : Expr) (line : Nat) : Nat :=
  match right with
  | .binary .concat _ _ last => last
  | _ => line

/-- The piece of an operator on two operands. -/
def combine (op : BinaryOp) (a b : Piece) (opLine : Nat) : ParseM Piece := do
  let b ← discharge b
  let expr (line : Nat) : Expr := .binary op a.expr b.expr line
  match op with
  | .and | .or =>
    if passes op a then return { b with expr := single b.expr }
    else return { b with expr := expr opLine, branches := true }
  | .concat =>
    let b ← toNext b
    drop b
    return { a with expr := expr (chainLine b.expr opLine) }
  | .equal | .unequal =>
    let (first, second) := match a.form with
      | .fixed _ => (a, b)
      | _ => (b, a)
    let first ← toAny first
    let second ← if second.isConstant then pure second else toAny second
    drop second
    drop first
    return ⟨expr (← lastLine), .test, false⟩
  | .less | .atMost | .greater | .atLeast =>
    let line ← lastLine
    let (first, second) := if b.isShort then (a, b) else if a.isShort then (b, a) else (a, b)
    let first ← toAny first
    let second ← if second.isShort then pure second else toAny second
    drop second
    drop first
    return ⟨expr line, .test, false⟩
  | _ =>
    match a.numeral?, b.numeral? with
    | some x, some y =>
      match Arithmetic.fold? op x y with
      | some n => return Piece.constant (.number n)
      | none =>
        drop (← toAny a)
        return ⟨expr opLine, .loose, false⟩
    | none, some _ =>
      drop (← toAny a)
      return ⟨expr opLine, .loose, false⟩
    | _, none =>
      let second ← toAny b
      let first ← if a.numeral?.isSome then pure a else toAny a
      drop second
      drop first
      return ⟨expr opLine, .loose, false⟩

/-- The piece of an operator on one operand. -/
def combineUnary (op : UnaryOp) (p : Piece) (opLine : Nat) : ParseM Piece := do
  let p ← discharge p
  let expr : Expr := .unary op p.expr opLine
  match op, p.numeral?.bind (Arithmetic.foldUnary? op) with
  | _, some n => return Piece.constant (.number n)
  | .not, none =>
    match p.form, p.expr, p.branches with
    | .test, _, _ => return { p with expr }
    | .constant, .nil, false => return Piece.constant (.bool true)
    | .constant, .bool b, false => return Piece.constant (.bool !b)
    | .constant, _, false => return Piece.constant (.bool false)
    | .constant, _, true => return { p with expr }
    | .fixed slot, _, branches =>
      release slot
      return ⟨expr, .loose, branches⟩
    | _, _, branches =>
      reserve 1
      release ((← layout).free - 1)
      return ⟨expr, .loose, branches⟩
  | _, none =>
    drop (← toAny p)
    return ⟨expr, .loose, false⟩

/-- Makes a piece the function of a call that follows. -/
def toCallee (p : Piece) : ParseM (Piece × Nat) := do
  let p ← toNext p
  return (p, (← layout).free - 1)

/-- Makes a piece the receiver of a method, which is found on the line passed last. -/
def toReceiver (p : Piece) : ParseM (Piece × Nat) := do
  let p ← toAny p
  drop p
  let slot := (← layout).free
  reserve 2
  return (p, slot)

/-- A call whose function is in a slot, after its arguments were put behind it. -/
def callPiece (e : Expr) (slot : Nat) : ParseM Piece := do
  modifyLayout ({ · with free := slot + 1 })
  return ⟨e, .call slot, false⟩

/-- The value of a piece on its way to a place. -/
def toStored (target value : Piece) : ParseM Expr := do
  match target.form with
  | .own _ =>
    drop value
    return (← discharge value).expr
  | .outer =>
    let value ← toAny value
    drop value
    return value.expr
  | _ =>
    let value ← if value.isConstant then pure value else toAny value
    drop value
    return value.expr

end Grammar

end ScriptHost
