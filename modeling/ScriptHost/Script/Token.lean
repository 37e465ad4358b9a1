import ScriptHost.Number.Numeral
import ScriptHost.Text.Utf8

/-!
# Tokens

Script text is a byte string.  Its tokens are names, reserved words, signs, numerals and strings;
blanks and comments stand between them.  A lexical error is a token of its own, so that it counts
only when it is reached.
-/

namespace ScriptHost

inductive Lexeme where
  | name (text : String)
  /-- A reserved word or a sign of the language. -/
  | mark (text : String)
  | number (n : Numeral)
  | text (bytes : ByteArray)
  /-- A byte that no token starts with. -/
  | stray (b : UInt8)
  | broken (complaint : String)
  | finish

structure Token where
  lexeme : Lexeme
  /-- The token as messages show it; nothing for the end of the text. -/
  raw : List UInt8
  /-- The line on which the token ends. -/
  line : Nat

instance : Inhabited Token := ⟨⟨.finish, [], 1⟩⟩

namespace Token

/-- Bytes of ASCII text. -/
def bytesOf (text : String) : List UInt8 := text.toByteArray.toList

def is (b : UInt8) (c : Char) : Bool := b.toNat == c.toNat

def isDigit (b : UInt8) : Bool := 48 ≤ b.toNat && b.toNat ≤ 57

def isHexDigit (b : UInt8) : Bool :=
  isDigit b || (97 ≤ b.toNat && b.toNat ≤ 102) || (65 ≤ b.toNat && b.toNat ≤ 70)

def isLetter (b : UInt8) : Bool :=
  (97 ≤ b.toNat && b.toNat ≤ 122) || (65 ≤ b.toNat && b.toNat ≤ 90) || is b '_'

def isNameByte (b : UInt8) : Bool := isLetter b || isDigit b

def isLineEnd (b : UInt8) : Bool := is b '\n' || is b '\r'

def isBlank (b : UInt8) : Bool := is b ' ' || is b '\t' || is b '\x0b' || is b '\x0c'

def asciiText (bytes : List UInt8) : String :=
  String.ofList (bytes.map fun b => Char.ofNat b.toNat)

def reserved : List String := [
  "and", "break", "do", "else", "elseif", "end", "false", "for", "function", "goto", "if", "in",
  "local", "nil", "not", "or", "repeat", "return", "then", "true", "until", "while"]

/-- The signs of the language, longer ones first. -/
def signs : List (List UInt8) := [
  "...", "..", "==", "~=", "<=", ">=", "//", "::", "<<", ">>", "+", "-", "*", "/", "%", "^", "#",
  "&", "~", "|", "<", ">", "=", "(", ")", "\x7b", "\x7d", "[", "]", ";", ":", ",", "."].map bytesOf

def mark (text : List UInt8) (line : Nat) : Token := ⟨.mark (asciiText text), text, line⟩

def ofWord (word : List UInt8) (line : Nat) : Token :=
  let text := asciiText word
  if reserved.contains text then mark word line else ⟨.name text, word, line⟩

/-- A line end may be two bytes of different kinds; it and the bytes after it. -/
def dropLineEnd : List UInt8 → List UInt8
  | a :: b :: rest => if isLineEnd b && a != b then rest else b :: rest
  | bytes => bytes.tail

/-- The level of a long bracket and the bytes after it. -/
def longBracket? : List UInt8 → Option (Nat × List UInt8)
  | b :: rest =>
    if is b '[' then
      let level := (rest.takeWhile (is · '=')).length
      match rest.drop level with
      | c :: rest => if is c '[' then some (level, rest) else none
      | [] => none
    else none
  | [] => none

/-- Whether a closing long bracket stands in front. -/
def closes (level : Nat) : List UInt8 → Bool
  | b :: rest =>
    is b ']' && (rest.takeWhile (is · '=')).length == level
      && ((rest.drop level).head?.map (is · ']')).getD false
  | [] => false

/--
The content of a long string after its opening bracket, in reverse, with the bytes after it and the
line it ends on; `none` if it does not end.
-/
def longString (level : Nat) : Nat → List UInt8 → Nat → List UInt8 →
    Option (List UInt8 × List UInt8 × Nat)
  | 0, _, _, _ => none
  | _ + 1, [], _, _ => none
  | fuel + 1, b :: rest, line, content =>
    if closes level (b :: rest) then some (content, rest.drop (level + 1), line)
    else if isLineEnd b then
      longString level fuel (dropLineEnd (b :: rest)) (line + 1) (10 :: content)
    else longString level fuel rest line (b :: content)

/-- Reads a long string; a line end right after the opening bracket does not count. -/
def readLong (level : Nat) (bytes : List UInt8) (line : Nat) :
    Option (List UInt8 × List UInt8 × Nat) :=
  let first := (bytes.head?.map isLineEnd).getD false
  longString level (bytes.length + 1) (if first then dropLineEnd bytes else bytes)
    (if first then line + 1 else line) []

/-- The encoding of a code point, in reverse; it goes beyond those of Unicode. -/
def encodeReversed (code : Nat) : List UInt8 :=
  let low (n : Nat) : UInt8 := .ofNat (0x80 + n % 64)
  let up (k : Nat) : Nat := code / Nat.pow 64 k
  if code < 0x80 then [.ofNat code]
  else if code < 0x800 then [low code, .ofNat (0xc0 + up 1)]
  else if code < 0x10000 then [low code, low (up 1), .ofNat (0xe0 + up 2)]
  else if code < 0x200000 then [low code, low (up 1), low (up 2), .ofNat (0xf0 + up 3)]
  else if code < 0x4000000 then
    [low code, low (up 1), low (up 2), low (up 3), .ofNat (0xf8 + up 4)]
  else [low code, low (up 1), low (up 2), low (up 3), low (up 4), .ofNat (0xfc + up 5)]

def hexValue (bytes : List UInt8) : Nat :=
  (Numeral.digits 16 (bytes.map fun b => Char.ofNat b.toNat) 0 0).1

def decimalValue (bytes : List UInt8) : Nat :=
  (Numeral.digits 10 (bytes.map fun b => Char.ofNat b.toNat) 0 0).1

/-- What an escape stands for. -/
inductive Escape where
  /-- Bytes in reverse, and how many bytes of text the escape takes. -/
  | bytes (reversed : List UInt8) (taken : Nat)
  | lineEnd
  /-- Skips the blanks after it. -/
  | skip
  /-- A complaint, with how much of the text the message shows. -/
  | invalid (complaint : String) (shown : Nat)

/-- How many bytes of a code point escape are read before its error. -/
def codePointEscape (text : List UInt8) : Escape :=
  match text with
  | brace :: digits =>
    if !is brace '\x7b' then .invalid "missing '\x7b'" 2
    else
      let hex := digits.takeWhile isHexDigit
      if hex.isEmpty then .invalid "hexadecimal digit expected" 3
      else
        let fits := (List.range (hex.length + 1)).takeWhile fun n =>
          hexValue (hex.take n) < Nat.pow 2 31
        if fits.length ≤ hex.length then .invalid "UTF-8 value too large" (fits.length + 2)
        else
          match digits.drop hex.length with
          | close :: _ =>
            if is close '\x7d' then .bytes (encodeReversed (hexValue hex)) (hex.length + 3)
            else .invalid "missing '\x7d'" (hex.length + 3)
          | [] => .invalid "missing '\x7d'" (hex.length + 2)
  | [] => .invalid "missing '\x7b'" 1

def hexEscape (text : List UInt8) : Escape :=
  match text with
  | a :: rest =>
    if !isHexDigit a then .invalid "hexadecimal digit expected" 2
    else
      match rest with
      | b :: _ =>
        if isHexDigit b then .bytes [.ofNat (hexValue [a, b])] 3
        else .invalid "hexadecimal digit expected" 3
      | [] => .invalid "hexadecimal digit expected" 2
  | [] => .invalid "hexadecimal digit expected" 1

def decimalEscape (text : List UInt8) : Escape :=
  let digits := (text.take 3).takeWhile isDigit
  let code := decimalValue digits
  if code < 256 then .bytes [.ofNat code] digits.length
  else .invalid "decimal escape too large" (min text.length (digits.length + 1))

/-- The single letters that stand for a byte. -/
def letterEscape? (b : UInt8) : Option UInt8 :=
  ([('a', 7), ('b', 8), ('f', 12), ('n', 10), ('r', 13), ('t', 9), ('v', 11), ('\\', 92),
    ('"', 34), ('\'', 39)].find? fun (c, _) => is b c).map (·.2)

/-- The escape after a backslash. -/
def escape (text : List UInt8) : Escape :=
  match text with
  | [] => .bytes [] 0
  | b :: rest =>
    match letterEscape? b with
    | some code => .bytes [code] 1
    | none =>
      if isLineEnd b then .lineEnd
      else if is b 'z' then .skip
      else if is b 'x' then hexEscape rest
      else if is b 'u' then codePointEscape rest
      else if isDigit b then decimalEscape text
      else .invalid "invalid escape sequence" 1

/-- How a quoted string ends. -/
inductive StringEnd where
  /-- The content in reverse, the bytes after it and the line. -/
  | closed (content rest : List UInt8) (line : Nat)
  | failed (complaint : String) (shown : Option (List UInt8)) (line : Nat)

/-- Skips blanks and line ends, counting the lines. -/
def skipBlanks : Nat → List UInt8 → Nat → List UInt8 × Nat
  | 0, bytes, line => (bytes, line)
  | fuel + 1, b :: rest, line =>
    if isLineEnd b then skipBlanks fuel (dropLineEnd (b :: rest)) (line + 1)
    else if isBlank b then skipBlanks fuel rest line
    else (b :: rest, line)
  | _ + 1, [], line => ([], line)

/-- The content of a quoted string after its opening quote. -/
def quotedString (quote : UInt8) : Nat → List UInt8 → Nat → List UInt8 → StringEnd
  | 0, _, line, _ => .failed "unfinished string" none line
  | _ + 1, [], line, _ => .failed "unfinished string" none line
  | fuel + 1, b :: rest, line, content =>
    if b == quote then .closed content rest line
    else if isLineEnd b then .failed "unfinished string" (some content) line
    else if is b '\\' then
      match escape rest with
      | .bytes reversed taken =>
        quotedString quote fuel (rest.drop taken) line (reversed ++ content)
      | .lineEnd => quotedString quote fuel (dropLineEnd rest) (line + 1) (10 :: content)
      | .skip =>
        let (rest, line) := skipBlanks rest.length rest.tail line
        quotedString quote fuel rest line content
      | .invalid complaint shown =>
        .failed complaint (some ((rest.take shown).reverse ++ b :: content)) line
    else quotedString quote fuel rest line (b :: content)

/-- The bytes of a numeral and those after it. -/
def numeralBytes (hex : Bool) : Nat → List UInt8 → List UInt8 × List UInt8
  | 0, bytes => ([], bytes)
  | _ + 1, [] => ([], [])
  | fuel + 1, b :: rest =>
    let isExponent := if hex then is b 'p' || is b 'P' else is b 'e' || is b 'E'
    if isExponent then
      match rest with
      | sign :: tail =>
        if is sign '+' || is sign '-' then
          let (taken, left) := numeralBytes hex fuel tail
          (b :: sign :: taken, left)
        else
          let (taken, left) := numeralBytes hex fuel rest
          (b :: taken, left)
      | [] => ([b], [])
    else if isHexDigit b || is b '.' then
      let (taken, left) := numeralBytes hex fuel rest
      (b :: taken, left)
    else if isLetter b then ([b], rest)
    else ([], b :: rest)

def readNumeral (bytes : List UInt8) (line : Nat) : Token × List UInt8 :=
  let prefixed : Nat := match bytes with
    | a :: b :: _ => if is a '0' && (is b 'x' || is b 'X') then 2 else 1
    | _ => 1
  let (taken, rest) := numeralBytes (prefixed == 2) bytes.length (bytes.drop prefixed)
  let raw := bytes.take prefixed ++ taken
  match Numeral.unsigned? (Nat.pow 2 63) (raw.map fun b => Char.ofNat b.toNat) with
  | some n => (⟨.number n, raw, line⟩, rest)
  | none => (⟨.broken "malformed number", raw, line⟩, rest)

/-- One step through the text: a token, or something between tokens. -/
inductive Step where
  | token (t : Token) (rest : List UInt8)
  | skip (rest : List UInt8) (line : Nat)

def readQuoted (quote : UInt8) (bytes : List UInt8) (line : Nat) : Step :=
  match quotedString quote (bytes.length + 1) bytes line [] with
  | .closed content rest line =>
    .token ⟨.text (.mk content.reverse.toArray), quote :: content.reverse ++ [quote], line⟩ rest
  | .failed complaint (some shown) line =>
    .token ⟨.broken complaint, quote :: shown.reverse, line⟩ []
  | .failed complaint none line => .token ⟨.broken complaint, [], line⟩ []

def readBracketed (level : Nat) (bytes : List UInt8) (line : Nat) : Step :=
  match readLong level bytes line with
  | some (content, rest, endLine) =>
    let bar := List.replicate level 61
    .token ⟨.text (.mk content.reverse.toArray),
      91 :: bar ++ [91] ++ content.reverse ++ [93] ++ bar ++ [93], endLine⟩ rest
  | none =>
    .token ⟨.broken s!"unfinished long string (starting at line {line})", [], line⟩ []

/-- The step over a comment after its two dashes. -/
def readComment (bytes : List UInt8) (line : Nat) : Step :=
  match longBracket? bytes with
  | some (level, rest) =>
    match readLong level rest line with
    | some (_, rest, endLine) => .skip rest endLine
    | none => .token ⟨.broken s!"unfinished long comment (starting at line {line})", [], line⟩ []
  | none => .skip (bytes.dropWhile (!isLineEnd ·)) line

/-- The step over text that starts with a given byte. -/
def step (b : UInt8) (rest : List UInt8) (line : Nat) : Step :=
  if isLineEnd b then .skip (dropLineEnd (b :: rest)) (line + 1)
  else if isBlank b then .skip rest line
  else if isLetter b then
    let word := (b :: rest).takeWhile isNameByte
    .token (ofWord word line) ((b :: rest).drop word.length)
  else if isDigit b || (is b '.' && (rest.head?.map isDigit).getD false) then
    let (t, rest) := readNumeral (b :: rest) line
    .token t rest
  else if is b '"' || is b '\'' then readQuoted b rest line
  else if is b '-' && (rest.head?.map (is · '-')).getD false then readComment rest.tail line
  else
    match longBracket? (b :: rest) with
    | some (level, rest) => readBracketed level rest line
    | none =>
      let bar := rest.takeWhile (is · '=')
      if is b '[' && !bar.isEmpty then
        .token ⟨.broken "invalid long string delimiter", b :: bar, line⟩ []
      else
      match signs.find? (·.isPrefixOf (b :: rest)) with
      | some sign => .token (mark sign line) ((b :: rest).drop sign.length)
      | none => .token ⟨.stray b, [b], line⟩ rest

/-- The tokens of a text; every step takes at least one byte of it. -/
def scan : Nat → List UInt8 → Nat → List Token
  | 0, _, line => [⟨.finish, [], line⟩]
  | _ + 1, [], line => [⟨.finish, [], line⟩]
  | fuel + 1, b :: rest, line =>
    match step b rest line with
    | .skip rest line => scan fuel rest line
    | .token t rest => t :: scan fuel rest t.line

/-- The tokens of a script text, the last of which is its end. -/
def ofBytes (bytes : ByteArray) : List Token := scan (bytes.size + 1) bytes.toList 1

end Token

end ScriptHost
