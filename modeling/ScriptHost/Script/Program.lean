import ScriptHost.Number.Numeral

/-!
# Programs

The abstract form of script text, in which every name is resolved.  Each part that can fail when it
runs carries the line that the message will name, and each call the slot of its function in the
frame of its caller.
-/

namespace ScriptHost

inductive UnaryOp where
  | minus
  | not
  | length
  | complement
deriving DecidableEq, Repr

inductive BinaryOp where
  | add
  | sub
  | mul
  | div
  | floorDiv
  | mod
  | pow
  | concat
  | equal
  | unequal
  | less
  | atMost
  | greater
  | atLeast
  | and
  | or
  | bitAnd
  | bitOr
  | bitXor
  | shiftLeft
  | shiftRight
deriving DecidableEq, Hashable, Repr

/-- A variable as a function sees it, with its name. -/
inductive Variable where
  /-- One of the function itself; places count from the variable that came last. -/
  | own (place : Nat) (name : String)
  /-- One of the functions around it, by its place among those that the function uses. -/
  | outer (place : Nat) (name : String)
deriving DecidableEq, Repr

mutual

inductive Expr where
  | nil
  | bool (b : Bool)
  | number (n : Numeral)
  | text (bytes : ByteArray)
  | varargs
  | variable (v : Variable)
  | index (subject key : Expr) (line : Nat)
  | call (callee : Expr) (args : List Expr) (line slot : Nat)
  /-- A call of a method; the line of its name precedes that of the call. -/
  | send (subject : Expr) (method : ByteArray) (args : List Expr) (nameLine line slot : Nat)
  | function (routine : Routine)
  | unary (op : UnaryOp) (operand : Expr) (line : Nat)
  | binary (op : BinaryOp) (left right : Expr) (line : Nat)
  /-- Parentheses keep one value of many. -/
  | paren (inner : Expr)
  /-- A new table, made for so many items and entries. -/
  | table (fields : List TableField) (items entries : Nat)

inductive TableField where
  | item (e : Expr)
  | entry (key e : Expr) (line : Nat)

inductive Routine where
  /--
  `outer` tells where the variables come from that the function uses of those around it, and `slots`
  is how much of the stack a frame of it takes.
  -/
  | mk (parameters : Nat) (variadic : Bool) (body : List Stmt) (outer : List Variable)
      (slots : Nat)

inductive Stmt where
  | assign (targets values : List Expr) (line : Nat)
  | locals (count : Nat) (values : List Expr)
  | localFunction (routine : Routine)
  | call (e : Expr)
  | block (body : List Stmt)
  | loop (condition : Expr) (body : List Stmt)
  /-- Runs until the condition holds, which sees the locals of the body. -/
  | loopUntil (body : List Stmt) (condition : Expr)
  | branch (condition : Expr) (body otherwise : List Stmt)
  | countFor (start limit : Expr) (step : Option Expr) (body : List Stmt) (line : Nat)
  /-- The iterator is called on one line and, before the first turn, checked on another. -/
  | eachFor (count : Nat) (source : List Expr) (body : List Stmt) (line checkLine : Nat)
  | result (values : List Expr)
  /-- Ends with a call that takes the place of its caller. -/
  | handOver (e : Expr)
  /-- Leaves the innermost loop. -/
  | leave

end

instance : Inhabited Expr := ⟨.nil⟩

namespace Routine

def parameters : Routine → Nat
  | mk parameters _ _ _ _ => parameters

def variadic : Routine → Bool
  | mk _ variadic _ _ _ => variadic

def body : Routine → List Stmt
  | mk _ _ body _ _ => body

def outer : Routine → List Variable
  | mk _ _ _ outer _ => outer

def slots : Routine → Nat
  | mk _ _ _ _ slots => slots

end Routine

instance : Inhabited Routine := ⟨.mk 0 true [] [] 2⟩

end ScriptHost
