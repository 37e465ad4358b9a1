import ScriptHost.Settings.Document
import ScriptHost.Settings.Toml.Text

/-!
# Numbers, dates and truth values of TOML

No setting takes a number or a date, so of these only their form counts: an integer fits into a
hundred and twenty-eight bits, a floating-point number is not too large, and a date is one of the
calendar.
-/

namespace ScriptHost

namespace Toml

/-- Digits of which single underscores may part two. -/
def isDigits (isDigit : Char → Bool) : List Char → Bool
  | [] => false
  | [c] => isDigit c
  | c :: '_' :: rest => isDigit c && isDigits isDigit rest
  | c :: rest => isDigit c && isDigits isDigit rest

def isHexDigit (c : Char) : Bool := (Numeral.digit? 16 c).isSome

def unsigned (text : List Char) : List Char :=
  match text with
  | '+' :: rest => rest
  | '-' :: rest => rest
  | rest => rest

/-- Decimal digits without a needless zero in front. -/
def isDecimal (text : List Char) : Bool :=
  isDigits Char.isDigit text && (text.length == 1 || text.head? != some '0')

def isExponent (text : List Char) : Bool := isDigits Char.isDigit (unsigned text)

/-- The text up to a character and the text after it. -/
def splitAt? (p : Char → Bool) (text : List Char) : Option (List Char × List Char) :=
  match text.dropWhile (!p ·) with
  | [] => none
  | _ :: rest => some (text.takeWhile (!p ·), rest)

def plainDigits (text : List Char) : List Char := text.filter (· != '_')

/-- Whether digits stand for an integer that is not too large. -/
def isInteger (base : Nat) (negative : Bool) (text : List Char) : Bool :=
  let (value, _) := Numeral.digits base (plainDigits text) 0 0
  if negative then value ≤ Nat.pow 2 127 else value < Nat.pow 2 128

/-- Whether an unsigned text has the form of a number with a fraction, an exponent or both. -/
def hasFloatForm (text : List Char) : Bool :=
  let (mantissa, exponentFits) := match splitAt? (fun c => c == 'e' || c == 'E') text with
    | some (mantissa, exponent) => (mantissa, isExponent exponent)
    | none => (text, true)
  let mantissaFits := match splitAt? (· == '.') mantissa with
    | some (whole, fraction) => isDecimal whole && isDigits Char.isDigit fraction
    | none => isDecimal mantissa
  exponentFits && mantissaFits

def isFloat (text : List Char) : Bool :=
  hasFloatForm text && match Numeral.ofText? (plainDigits text) with
    | some (.float x) => x.isFinite
    | _ => false

def isNumber (text : List Char) : Bool :=
  match text with
  | '0' :: 'x' :: digits => isDigits isHexDigit digits && isInteger 16 false digits
  | '0' :: 'o' :: digits =>
    isDigits (fun c => c.isDigit && c < '8') digits && isInteger 8 false digits
  | '0' :: 'b' :: digits =>
    isDigits (fun c => c == '0' || c == '1') digits && isInteger 2 false digits
  | text =>
    let body := unsigned text
    if isDecimal body then isInteger 10 (text.head? == some '-') body
    else body == ['i', 'n', 'f'] || body == ['n', 'a', 'n'] || isFloat body

/-- The value of a fixed number of digits. -/
def fixedDigits? (count : Nat) (text : List Char) : Option (Nat × List Char) :=
  let (value, found, _) := Numeral.digits 10 (text.take count) 0 0
  if found = count then some (value, text.drop count) else none

/-- The text after a character that has to be there. -/
def after? (c : Char) : List Char → Option (List Char)
  | d :: rest => if d = c then some rest else none
  | [] => none

/-- The value of two digits within bounds. -/
def pair? (least most : Nat) (text : List Char) : Option (Nat × List Char) :=
  (fixedDigits? 2 text).filter fun (value, _) => least ≤ value ∧ value ≤ most

def isLeapYear (year : Nat) : Bool := year % 4 == 0 && (year % 100 != 0 || year % 400 == 0)

def daysOf (year month : Nat) : Nat :=
  if month = 2 then if isLeapYear year then 29 else 28
  else if month = 4 ∨ month = 6 ∨ month = 9 ∨ month = 11 then 30
  else 31

/-- The text after a date of the calendar. -/
def date? (text : List Char) : Option (List Char) := do
  let (year, rest) ← fixedDigits? 4 text
  let (month, rest) ← pair? 1 12 (← after? '-' rest)
  let (_, rest) ← pair? 1 (daysOf year month) (← after? '-' rest)
  return rest

/-- The text after a time of the day, which may lack seconds and may have parts of them. -/
def time? (text : List Char) : Option (List Char) := do
  let (_, rest) ← pair? 0 23 text
  let (_, rest) ← pair? 0 59 (← after? ':' rest)
  match rest with
  | ':' :: rest =>
    let (_, rest) ← pair? 0 60 rest
    match rest with
    | '.' :: c :: rest => if c.isDigit then return rest.dropWhile Char.isDigit else none
    | rest => return rest
  | rest => return rest

/-- The text after a distance from universal time, which may be missing. -/
def offset? (text : List Char) : Option (List Char) :=
  match text with
  | [] => some []
  | c :: rest =>
    if c = 'Z' ∨ c = 'z' then some rest
    else if c = '+' ∨ c = '-' then do
      let (_, rest) ← pair? 0 23 rest
      let (_, rest) ← pair? 0 59 (← after? ':' rest)
      return rest
    else none

/-- The text after a date with or without a time. -/
def moment? (text : List Char) : Option (List Char) := do
  match ← date? text with
  | [] => return []
  | c :: rest => if c = 'T' ∨ c = 't' ∨ c = ' ' then offset? (← time? rest) else none

def isDate (text : List Char) : Bool := date? text == some []

def isTime (text : List Char) : Bool := time? text == some []

def isMoment (text : List Char) : Bool := moment? text == some []

def isScalarChar (c : Char) : Bool :=
  c.isAlphanum || c == '+' || c == '-' || c == '_' || c == '.' || c == ':'

/-- A value that is neither text nor made of other values. -/
def scalar? (text : List Char) : Option (Document × List Char) :=
  let word := text.takeWhile isScalarChar
  let rest := text.drop word.length
  -- a date may have a blank before its time
  let time := (rest.drop 1).takeWhile isScalarChar
  if isDate word ∧ rest.head? = some ' ' ∧ isMoment (word ++ ' ' :: time) then
    some (.other, rest.drop (time.length + 1))
  else if word = "true".toList then some (.bool true, rest)
  else if word = "false".toList then some (.bool false, rest)
  else if isNumber word || isMoment word || isTime word then some (.other, rest)
  else none

end Toml

end ScriptHost
