import SlotStorage.Proofs.Utf8
import SlotStorage.Word

/-!
# Reading hexadecimal texts

The digits of a byte string are read as that byte string.  A text that is read
as a number on its own is read as the same number inside documents, where one
more mark is allowed.
-/

namespace SlotStorage

theorem Utf8.encode_ascii {char : Char} (small : char.toNat < 0x80)
    (chars : List Char) :
    encode (char :: chars) = UInt8.ofNat char.toNat :: encode chars := by
  have sequence : encodeChar char = [UInt8.ofNat char.toNat] := if_pos small
  change encodeChar char ++ encode chars = _
  rw [sequence]
  rfl

namespace Hex

theorem toNat_digit_lt : ∀ value < 16, (digit value).toNat < 0x80 := by
  decide

theorem digitValue?_digit :
    ∀ value < 16, digitValue? (digit value).toNat = some value := by
  decide

/-- The digit as a byte is read as its value. -/
theorem digitValue?_byte {value : Nat} (small : value < 16) :
    digitValue? (UInt8.ofNat (digit value).toNat).toNat = some value := by
  have ascii := toNat_digit_lt value small
  rw [Utf8.toNat_byte (by omega)]
  exact digitValue?_digit value small

theorem utf8_encode_cons (byte : UInt8) (bytes : Bytes) :
    Utf8.encode (encode (byte :: bytes)) =
      UInt8.ofNat (digit (byte.toNat / 16)).toNat ::
        UInt8.ofNat (digit (byte.toNat % 16)).toNat ::
          Utf8.encode (encode bytes) := by
  have small : byte.toNat < 256 := byte.toNat_lt
  have split : encode (byte :: bytes) =
      digit (byte.toNat / 16) :: digit (byte.toNat % 16) :: encode bytes := rfl
  rw [split, Utf8.encode_ascii (toNat_digit_lt _ (by omega)),
    Utf8.encode_ascii (toNat_digit_lt _ (by omega))]

theorem length_utf8_encode (bytes : Bytes) :
    (Utf8.encode (encode bytes)).length = 2 * bytes.length := by
  induction bytes with
  | nil => rfl
  | cons byte bytes induction =>
      rw [utf8_encode_cons, List.length_cons, List.length_cons, induction,
        List.length_cons]
      omega

theorem decodePairs_encode (position : Nat) (bytes : Bytes) :
    decodePairs position (Utf8.encode (encode bytes)) = .ok bytes := by
  induction bytes generalizing position with
  | nil => rfl
  | cons byte bytes induction =>
      have small : byte.toNat < 256 := byte.toNat_lt
      have high := digitValue?_byte (show byte.toNat / 16 < 16 by omega)
      have low := digitValue?_byte (show byte.toNat % 16 < 16 by omega)
      have whole : byte.toNat / 16 * 16 + byte.toNat % 16 = byte.toNat := by
        omega
      rw [utf8_encode_cons, decodePairs]
      simp only [high, low, induction, whole, UInt8.ofNat_toNat]

theorem decode_encode (bytes : Bytes) :
    decode (Utf8.encode (encode bytes)) = .ok bytes := by
  rw [decode, length_utf8_encode, if_neg (by omega), decodePairs_encode]

end Hex

namespace Octets

variable {width : Nat}

/-- What is written for a number is read as the number. -/
theorem ofDocumentText?_encode (number : Octets width) :
    ofDocumentText? width ('0' :: 'x' :: Hex.encode number.toBytes) =
      some number := by
  simp only [ofDocumentText?, Hex.decode_encode, ofBytes?_toBytes]

theorem dropMark_of_unmarked {chars : List Char}
    (unmarked : ∀ rest, chars ≠ '0' :: 'x' :: rest) :
    dropMark chars = chars := by
  unfold dropMark
  split
  · exact absurd rfl (unmarked _)
  · rfl

/-- The mark of documents is no digit. -/
theorem decode_upper_mark (chars : List Char) :
    ∃ cause, Hex.decode (Utf8.encode ('0' :: 'X' :: chars)) = .error cause := by
  rw [Utf8.encode_ascii (by decide), Utf8.encode_ascii (by decide), Hex.decode]
  split
  · exact ⟨_, rfl⟩
  · exact ⟨_, rfl⟩

theorem decode_of_parse {text : String} {number : Octets width}
    (parsed : parse width text = .ok number) :
    ∃ bytes, Hex.decode (Utf8.encode (dropMark text.toList)) = .ok bytes ∧
      ofBytes? width bytes = some number := by
  unfold parse at parsed
  split at parsed
  · cases parsed
  · rename_i bytes decoded
    split at parsed
    · rename_i found same
      cases parsed
      exact ⟨bytes, decoded, same⟩
    · cases parsed

/-- A text that is read on its own is read so inside documents. -/
theorem ofDocumentText?_of_parse {text : String} {number : Octets width}
    (parsed : parse width text = .ok number) :
    ofDocumentText? width text.toList = some number := by
  obtain ⟨bytes, decoded, same⟩ := decode_of_parse parsed
  revert decoded
  generalize text.toList = chars
  intro decoded
  -- The two rules differ only on the mark that one of them does not know.
  unfold ofDocumentText?
  split
  · rename_i rest
    have decoded : Hex.decode (Utf8.encode rest) = .ok bytes := decoded
    simp only [decoded, same]
  · rename_i rest
    obtain ⟨cause, refused⟩ := decode_upper_mark rest
    have decoded : Hex.decode (Utf8.encode ('0' :: 'X' :: rest)) = .ok bytes :=
      decoded
    rw [refused] at decoded
    cases decoded
  · rename_i unmarked _
    rw [dropMark_of_unmarked unmarked] at decoded
    simp only [decoded, same]

end Octets

end SlotStorage
