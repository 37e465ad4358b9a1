import ScriptHost.Text.Utf8

/-!
# Texts without replaced bytes

Bytes that encode no text are read with replacement characters in place of what is broken.  So a
text without such a character is read from its own encoding only.
-/

namespace ScriptHost

/-! ## Byte strings as lists -/

theorem toList_loop_eq (bytes : ByteArray) (i : Nat) (before : List UInt8) :
    ByteArray.toList.loop bytes i before = before.reverse ++ bytes.data.toList.drop i := by
  fun_induction ByteArray.toList.loop bytes i before with
  | case1 i before inside ih =>
    have same : bytes.get! i :: bytes.data.toList.drop (i + 1) = bytes.data.toList.drop i := by
      have known : i < bytes.data.toList.length := inside
      rw [List.drop_eq_getElem_cons known]
      simp [ByteArray.get!, getElem!_pos bytes.data i inside]
    rw [ih, List.reverse_cons, List.append_assoc, ← same]
    rfl
  | case2 i before outside =>
    have beyond : bytes.data.toList.length ≤ i := by simpa using outside
    rw [List.drop_eq_nil_of_le beyond, List.append_nil]

theorem toList_eq_data_toList (bytes : ByteArray) : bytes.toList = bytes.data.toList := by
  rw [ByteArray.toList, toList_loop_eq]
  rfl

namespace Utf8

theorem val_ofNat {n : Nat} (valid : n.isValidChar) : (Char.ofNat n).val.toNat = n := by
  rw [Char.ofNat, dif_pos valid]
  rfl

theorem ofNat_eq {n : Nat} {b : UInt8} (same : n = b.toNat) : UInt8.ofNat n = b := by
  rw [same, UInt8.ofNat_toNat]

/-- A leading byte tells how many bytes follow it, and bounds the first of these. -/
theorem lead?_eq_some {b : UInt8} {low high more : Nat} (lead : lead? b = some (low, high, more)) :
    (more = 1 ∧ 0xc2 ≤ b.toNat ∧ b.toNat ≤ 0xdf ∧ low = 0x80 ∧ high = 0xbf) ∨
      (more = 2 ∧ 0xe0 ≤ b.toNat ∧ b.toNat ≤ 0xef ∧ 0x80 ≤ low ∧ high ≤ 0xbf ∧
        (b.toNat = 0xe0 → 0xa0 ≤ low) ∧ (b.toNat = 0xed → high ≤ 0x9f)) ∨
      (more = 3 ∧ 0xf0 ≤ b.toNat ∧ b.toNat ≤ 0xf4 ∧ 0x80 ≤ low ∧ high ≤ 0xbf ∧
        (b.toNat = 0xf0 → 0x90 ≤ low) ∧ (b.toNat = 0xf4 → high ≤ 0x8f)) := by
  simp only [lead?] at lead
  repeat' split at lead
  all_goals
    cases lead
    try omega

/-! ## One character -/

theorem encode_one {b : UInt8} (ascii : b.toNat < 0x80) :
    String.utf8EncodeChar (Char.ofNat b.toNat) = [b] := by
  have valid : b.toNat.isValidChar := .inl (by omega)
  rw [String.utf8EncodeChar]
  rw [val_ofNat valid, if_pos (by omega), UInt8.ofNat_toNat]

theorem encode_two {b0 b1 : UInt8} {low high : Nat} (lead : lead? b0 = some (low, high, 1))
    (within : low ≤ b1.toNat ∧ b1.toNat ≤ high) :
    String.utf8EncodeChar (Char.ofNat (b0.toNat % 32 * 64 + low6 b1)) = [b0, b1] := by
  have range := lead?_eq_some lead
  have valid : (b0.toNat % 32 * 64 + low6 b1).isValidChar := .inl (by unfold low6; omega)
  rw [String.utf8EncodeChar]
  rw [val_ofNat valid, low6, if_neg (by omega), if_pos (by omega), ofNat_eq (b := b0) (by omega),
    ofNat_eq (b := b1) (by omega)]

theorem encode_three {b0 b1 b2 : UInt8} {low high : Nat} (lead : lead? b0 = some (low, high, 2))
    (within : low ≤ b1.toNat ∧ b1.toNat ≤ high) (continued : continues b2 = true) :
    String.utf8EncodeChar (Char.ofNat ((b0.toNat % 16 * 64 + low6 b1) * 64 + low6 b2)) =
      [b0, b1, b2] := by
  have range := lead?_eq_some lead
  have last : 0x80 ≤ b2.toNat ∧ b2.toNat ≤ 0xbf := by simpa [continues] using continued
  have valid : ((b0.toNat % 16 * 64 + low6 b1) * 64 + low6 b2).isValidChar := by
    unfold Nat.isValidChar low6
    omega
  rw [String.utf8EncodeChar]
  rw [val_ofNat valid, low6, low6, if_neg (by omega), if_neg (by omega), if_pos (by omega),
    ofNat_eq (b := b0) (by omega), ofNat_eq (b := b1) (by omega), ofNat_eq (b := b2) (by omega)]

theorem encode_four {b0 b1 b2 b3 : UInt8} {low high more : Nat}
    (lead : lead? b0 = some (low, high, more)) (long : more ≠ 1 ∧ more ≠ 2)
    (within : low ≤ b1.toNat ∧ b1.toNat ≤ high) (continued : continues b2 = true)
    (ended : continues b3 = true) :
    String.utf8EncodeChar
        (Char.ofNat (((b0.toNat % 8 * 64 + low6 b1) * 64 + low6 b2) * 64 + low6 b3)) =
      [b0, b1, b2, b3] := by
  have range := lead?_eq_some lead
  have third : 0x80 ≤ b2.toNat ∧ b2.toNat ≤ 0xbf := by simpa [continues] using continued
  have last : 0x80 ≤ b3.toNat ∧ b3.toNat ≤ 0xbf := by simpa [continues] using ended
  have valid : (((b0.toNat % 8 * 64 + low6 b1) * 64 + low6 b2) * 64 + low6 b3).isValidChar := by
    unfold Nat.isValidChar low6
    omega
  rw [String.utf8EncodeChar]
  rw [val_ofNat valid, low6, low6, low6, if_neg (by omega), if_neg (by omega), if_neg (by omega),
    ofNat_eq (b := b0) (by omega), ofNat_eq (b := b1) (by omega), ofNat_eq (b := b2) (by omega),
    ofNat_eq (b := b3) (by omega)]

/-! ## All of them -/

theorem broken_ne (length : Nat) (cut : Bool) (rest : List Piece) (chars : List Char) :
    .broken length cut :: rest ≠ chars.map .char := by
  cases chars <;> nofun

/-- What comes before pieces that are all characters, if it is the encoding of a character. -/
theorem eq_flatMap_of_char {c : Char} {first rest : List UInt8} {others : List Piece}
    (encoded : String.utf8EncodeChar c = first)
    (ih : ∀ chars : List Char, others = chars.map .char →
      rest = chars.flatMap String.utf8EncodeChar)
    {chars : List Char} (same : .char c :: others = chars.map .char) :
    first ++ rest = chars.flatMap String.utf8EncodeChar := by
  cases chars with
  | nil => cases same
  | cons d chars =>
    obtain ⟨head, tail⟩ := List.cons.inj same
    cases head
    rw [List.flatMap_cons, encoded, ← ih chars tail]

theorem pieces_chars (l : List UInt8) :
    ∀ chars : List Char, pieces l = chars.map .char →
      l = chars.flatMap String.utf8EncodeChar := by
  fun_induction pieces l with
  | case1 =>
    intro chars same
    cases chars with
    | nil => rfl
    | cons => cases same
  | case2 b0 r0 ascii ih =>
    intro chars same
    exact eq_flatMap_of_char (encode_one ascii) ih same
  | case6 b0 _ low high b1 r1 within lead ih =>
    intro chars same
    exact eq_flatMap_of_char (encode_two lead (by simpa using within)) ih same
  | case9 b0 _ low high b1 within b2 r2 continued lead _ ih =>
    intro chars same
    exact eq_flatMap_of_char (encode_three lead (by simpa using within) (by simpa using continued))
      ih same
  | case12 b0 _ low high more lead b1 within notOne b2 continued notTwo b3 r3 ended ih =>
    intro chars same
    exact eq_flatMap_of_char (encode_four lead ⟨notOne, notTwo⟩ (by simpa using within)
      (by simpa using continued) (by simpa using ended)) ih same
  | _ => exact fun chars same => absurd same (broken_ne _ _ _ chars)

/-- Only its own encoding is read as a text that has no replacement character. -/
theorem eq_toByteArray_of_decode {bytes : ByteArray} {s : String} (plain : replacement ∉ s.toList)
    (same : decode bytes = s) : bytes = s.toByteArray := by
  unfold decode at same
  split at same
  · rw [← same]
  · next broken =>
    have text : s.toList = (pieces bytes.toList).map Piece.text := by
      rw [← same, String.toList_ofList]
    have whole : ∀ piece ∈ pieces bytes.toList, ∃ c, piece = .char c := by
      intro piece among
      cases piece with
      | char c => exact ⟨c, rfl⟩
      | broken length cut =>
        refine absurd ?_ plain
        rw [text]
        exact List.mem_map.2 ⟨_, among, rfl⟩
    have chars : pieces bytes.toList = s.toList.map .char := by
      rw [text, List.map_map]
      refine (List.map_id _).symm.trans (List.map_congr_left fun piece among => ?_)
      obtain ⟨c, rfl⟩ := whole piece among
      rfl
    refine absurd (ByteArray.IsValidUTF8.intro s.toList ?_) broken
    have list := pieces_chars _ _ chars
    refine ByteArray.ext ?_
    rw [List.utf8Encode, ← list, List.data_toByteArray, toList_eq_data_toList, Array.toArray_toList]

end Utf8

end ScriptHost
