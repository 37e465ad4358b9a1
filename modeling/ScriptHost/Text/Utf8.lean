/-!
# Byte strings and text

Scripts hold byte strings and hosts hold Unicode text.  Text goes over as its encoding.  Bytes come
back as the text they encode; bytes that encode none are read piece by piece, and each longest
start of a broken sequence becomes one replacement character.
-/

namespace ScriptHost

namespace Utf8

def replacement : Char := '\ufffd'

/-- The lowest and highest second byte after a leading byte, and how many bytes follow it. -/
def lead? (b : UInt8) : Option (Nat × Nat × Nat) :=
  let n := b.toNat
  if 0xc2 ≤ n ∧ n ≤ 0xdf then some (0x80, 0xbf, 1)
  else if n = 0xe0 then some (0xa0, 0xbf, 2)
  else if n = 0xed then some (0x80, 0x9f, 2)
  else if 0xe1 ≤ n ∧ n ≤ 0xef then some (0x80, 0xbf, 2)
  else if n = 0xf0 then some (0x90, 0xbf, 3)
  else if 0xf1 ≤ n ∧ n ≤ 0xf3 then some (0x80, 0xbf, 3)
  else if n = 0xf4 then some (0x80, 0x8f, 3)
  else none

def continues (b : UInt8) : Bool := 0x80 ≤ b.toNat && b.toNat ≤ 0xbf

/-- A piece of a byte string. -/
inductive Piece where
  | char (c : Char)
  /-- A longest start of a broken sequence; `cut` when the bytes end inside it. -/
  | broken (length : Nat) (cut : Bool)
deriving DecidableEq, Repr

def low6 (b : UInt8) : Nat := b.toNat % 64

/-- The pieces of a byte string, in order. -/
def pieces : List UInt8 → List Piece
  | [] => []
  | b0 :: r0 =>
    if b0.toNat < 0x80 then .char (Char.ofNat b0.toNat) :: pieces r0
    else
      match lead? b0 with
      | none => .broken 1 false :: pieces r0
      | some (low, high, more) =>
        match r0 with
        | [] => [.broken 1 true]
        | b1 :: r1 =>
          if b1.toNat < low || high < b1.toNat then .broken 1 false :: pieces (b1 :: r1)
          else if more = 1 then .char (Char.ofNat (b0.toNat % 32 * 64 + low6 b1)) :: pieces r1
          else
            match r1 with
            | [] => [.broken 2 true]
            | b2 :: r2 =>
              if !continues b2 then .broken 2 false :: pieces (b2 :: r2)
              else if more = 2 then
                .char (Char.ofNat ((b0.toNat % 16 * 64 + low6 b1) * 64 + low6 b2)) :: pieces r2
              else
                match r2 with
                | [] => [.broken 3 true]
                | b3 :: r3 =>
                  if !continues b3 then .broken 3 false :: pieces (b3 :: r3)
                  else
                    .char (Char.ofNat
                      (((b0.toNat % 8 * 64 + low6 b1) * 64 + low6 b2) * 64 + low6 b3)) :: pieces r3

def Piece.text : Piece → Char
  | .char c => c
  | .broken _ _ => replacement

/-- The text of a byte string, broken sequences replaced. -/
def decode (bytes : ByteArray) : String :=
  if valid : bytes.IsValidUTF8 then .ofByteArray bytes valid
  else .ofList ((pieces bytes.toList).map Piece.text)

/-- The text of a byte string that encodes one. -/
def decode? (bytes : ByteArray) : Option String :=
  if valid : bytes.IsValidUTF8 then some (.ofByteArray bytes valid) else none

theorem decode_toByteArray (s : String) : decode s.toByteArray = s := by
  simp [decode, s.isValidUTF8]

theorem decode?_toByteArray (s : String) : decode? s.toByteArray = some s := by
  simp [decode?, s.isValidUTF8]

def Piece.width : Piece → Nat
  | .char c => c.utf8Size
  | .broken length _ => length

/-- What is wrong with bytes that encode no text, from the first broken sequence on. -/
def complaint (bytes : ByteArray) : String :=
  go (pieces bytes.toList) 0
where
  go : List Piece → Nat → String
    | [], _ => ""
    | .broken _ true :: _, index => s!"incomplete utf-8 byte sequence from index {index}"
    | .broken length false :: _, index =>
      s!"invalid utf-8 sequence of {length} bytes from index {index}"
    | piece :: rest, index => go rest (index + piece.width)

end Utf8

end ScriptHost
