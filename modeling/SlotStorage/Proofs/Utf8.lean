import SlotStorage.Text.Utf8
import SlotStorage.Proofs.Words

/-!
# Reading back UTF-8

Whatever text is written can be read again, and whatever is read was written
so: a text has one spelling.  The reader is followed through the four lengths
of a sequence; in each of them the code point is the sum of what its bytes
carry.
-/

namespace SlotStorage.Utf8

theorem toNat_valid (char : Char) :
    char.toNat < 0xD800 ∨ 0xDFFF < char.toNat ∧ char.toNat < 0x110000 :=
  char.valid

theorem toNat_byte {value : Nat} (small : value < 256) :
    (UInt8.ofNat value).toNat = value :=
  UInt8.toNat_ofNat_of_lt small

theorem isContinuation_byte {low : Nat} (small : low < 0x40) :
    isContinuation (UInt8.ofNat (0x80 + low)) = true := by
  unfold isContinuation
  rw [toNat_byte (by omega)]
  simp only [Bool.and_eq_true, decide_eq_true_eq]
  omega

theorem payload_byte {low : Nat} (small : low < 0x40) :
    payload (UInt8.ofNat (0x80 + low)) = low := by
  unfold payload
  rw [toNat_byte (by omega)]
  omega

theorem isSecondOfThree_byte {high low : Nat} (highSmall : high < 0x10)
    (small : low < 0x40) (longest : high = 0 → 0x20 ≤ low)
    (surrogate : high = 0xD → low < 0x20) :
    isSecondOfThree (UInt8.ofNat (0xE0 + high)) (UInt8.ofNat (0x80 + low)) =
      true := by
  unfold isSecondOfThree
  rw [toNat_byte (by omega), toNat_byte (by omega)]
  by_cases first : 0xE0 + high = 0xE0
  · rw [if_pos first]
    simp only [Bool.and_eq_true, decide_eq_true_eq]
    omega
  · rw [if_neg first]
    by_cases limit : 0xE0 + high = 0xED
    · rw [if_pos limit]
      simp only [Bool.and_eq_true, decide_eq_true_eq]
      omega
    · rw [if_neg limit]
      exact isContinuation_byte small

theorem isSecondOfFour_byte {high low : Nat} (highSmall : high < 0x10)
    (small : low < 0x40) (longest : high = 0 → 0x10 ≤ low)
    (last : high = 4 → low < 0x10) :
    isSecondOfFour (UInt8.ofNat (0xF0 + high)) (UInt8.ofNat (0x80 + low)) =
      true := by
  unfold isSecondOfFour
  rw [toNat_byte (by omega), toNat_byte (by omega)]
  by_cases first : 0xF0 + high = 0xF0
  · rw [if_pos first]
    simp only [Bool.and_eq_true, decide_eq_true_eq]
    omega
  · rw [if_neg first]
    by_cases limit : 0xF0 + high = 0xF4
    · rw [if_pos limit]
      simp only [Bool.and_eq_true, decide_eq_true_eq]
      omega
    · rw [if_neg limit]
      exact isContinuation_byte small

/-- Reading the sequence of a character gives the character and the count of
the bytes after the first one. -/
theorem readChar_encodeChar (char : Char) (rest : Bytes) :
    ∃ first following, encodeChar char = first :: following ∧
      readChar first (following ++ rest) = .ok (char, following.length) := by
  have valid := toNat_valid char
  have back := Char.ofNat_toNat char
  unfold encodeChar
  by_cases one : char.toNat < 0x80
  · refine ⟨_, _, if_pos one, ?_⟩
    unfold readChar
    simp only [toNat_byte (show char.toNat < 256 by omega)]
    rw [if_pos one, back]
    rfl
  by_cases two : char.toNat < 0x800
  · refine ⟨_, _, by rw [if_neg one, if_pos two], ?_⟩
    have code : (0xC0 + char.toNat / 0x40 - 0xC0) * 0x40 +
        char.toNat % 0x40 = char.toNat := by omega
    unfold readChar
    simp only [toNat_byte (show 0xC0 + char.toNat / 0x40 < 256 by omega),
      List.cons_append, List.nil_append,
      isContinuation_byte (show char.toNat % 0x40 < 0x40 by omega),
      payload_byte (show char.toNat % 0x40 < 0x40 by omega), code, back]
    rw [if_neg (by omega), if_neg (by omega), if_pos (by omega)]
    rfl
  by_cases three : char.toNat < 0x10000
  · refine ⟨_, _, by rw [if_neg one, if_neg two, if_pos three], ?_⟩
    have code : (0xE0 + char.toNat / 0x1000 - 0xE0) * 0x1000 +
        char.toNat / 0x40 % 0x40 * 0x40 + char.toNat % 0x40 = char.toNat := by
      omega
    have second := isSecondOfThree_byte
      (show char.toNat / 0x1000 < 0x10 by omega)
      (show char.toNat / 0x40 % 0x40 < 0x40 by omega) (by omega) (by omega)
    unfold readChar
    simp only [toNat_byte (show 0xE0 + char.toNat / 0x1000 < 256 by omega),
      List.cons_append, List.nil_append, second,
      isContinuation_byte (show char.toNat % 0x40 < 0x40 by omega),
      payload_byte (show char.toNat / 0x40 % 0x40 < 0x40 by omega),
      payload_byte (show char.toNat % 0x40 < 0x40 by omega), code, back]
    rw [if_neg (by omega), if_neg (by omega), if_neg (by omega),
      if_pos (by omega)]
    rfl
  · refine ⟨_, _, by rw [if_neg one, if_neg two, if_neg three], ?_⟩
    have code : (0xF0 + char.toNat / 0x40000 - 0xF0) * 0x40000 +
        char.toNat / 0x1000 % 0x40 * 0x1000 +
        char.toNat / 0x40 % 0x40 * 0x40 + char.toNat % 0x40 = char.toNat := by
      omega
    have second := isSecondOfFour_byte
      (show char.toNat / 0x40000 < 0x10 by omega)
      (show char.toNat / 0x1000 % 0x40 < 0x40 by omega) (by omega) (by omega)
    unfold readChar
    simp only [toNat_byte (show 0xF0 + char.toNat / 0x40000 < 256 by omega),
      List.cons_append, List.nil_append, second,
      isContinuation_byte (show char.toNat / 0x40 % 0x40 < 0x40 by omega),
      isContinuation_byte (show char.toNat % 0x40 < 0x40 by omega),
      payload_byte (show char.toNat / 0x1000 % 0x40 < 0x40 by omega),
      payload_byte (show char.toNat / 0x40 % 0x40 < 0x40 by omega),
      payload_byte (show char.toNat % 0x40 < 0x40 by omega), code, back]
    rw [if_neg (by omega), if_neg (by omega), if_neg (by omega),
      if_neg (by omega), if_pos (by omega)]
    rfl

/-- The bytes that belong to the last character are passed over. -/
theorem decodeFrom_inside (position : Nat) (inside rest : Bytes) :
    decodeFrom position inside.length (inside ++ rest) =
      decodeFrom (position + inside.length) 0 rest := by
  induction inside generalizing position with
  | nil => rfl
  | cons byte inside induction =>
      rw [List.length_cons, List.cons_append]
      change decodeFrom (position + 1) inside.length (inside ++ rest) = _
      rw [induction, Nat.add_assoc, Nat.add_comm 1]

theorem decodeFrom_encode (position : Nat) (chars : List Char) :
    decodeFrom position 0 (encode chars) = .ok chars := by
  induction chars generalizing position with
  | nil => rfl
  | cons char chars induction =>
      obtain ⟨first, following, sequence, reads⟩ :=
        readChar_encodeChar char (encode chars)
      have split : encode (char :: chars) =
          first :: (following ++ encode chars) := by
        change encodeChar char ++ encode chars = _
        rw [sequence]
        rfl
      rw [split, decodeFrom]
      simp only [reads]
      rw [decodeFrom_inside, induction]

theorem toString?_ofString (text : String) :
    toString? (ofString text) = .ok text := by
  rw [toString?, decode, ofString, decodeFrom_encode]
  change Except.ok (String.ofList text.toList) = _
  rw [String.ofList_toList]

/-! ## Only what was written -/

theorem toNat_ofNat_of_valid {code : Nat} (valid : code.isValidChar) :
    (Char.ofNat code).toNat = code := by
  rw [Char.ofNat, dif_pos valid]
  rfl

theorem ofNat_eq_byte {value : Nat} (byte : UInt8)
    (same : value = byte.toNat) : UInt8.ofNat value = byte := by
  rw [same, UInt8.ofNat_toNat]

theorem bounds_of_isContinuation {byte : UInt8}
    (continues : isContinuation byte = true) :
    0x80 ≤ byte.toNat ∧ byte.toNat ≤ 0xBF := by
  simpa [isContinuation] using continues

theorem bounds_of_isSecondOfThree {first second : UInt8}
    (accepted : isSecondOfThree first second = true) :
    (0x80 ≤ second.toNat ∧ second.toNat ≤ 0xBF) ∧
      (first.toNat = 0xE0 → 0xA0 ≤ second.toNat) ∧
        (first.toNat = 0xED → second.toNat ≤ 0x9F) := by
  unfold isSecondOfThree at accepted
  split at accepted
  · simp only [Bool.and_eq_true, decide_eq_true_eq] at accepted
    omega
  · split at accepted
    · simp only [Bool.and_eq_true, decide_eq_true_eq] at accepted
      omega
    · have bounds := bounds_of_isContinuation accepted
      omega

theorem bounds_of_isSecondOfFour {first second : UInt8}
    (accepted : isSecondOfFour first second = true) :
    (0x80 ≤ second.toNat ∧ second.toNat ≤ 0xBF) ∧
      (first.toNat = 0xF0 → 0x90 ≤ second.toNat) ∧
        (first.toNat = 0xF4 → second.toNat ≤ 0x8F) := by
  unfold isSecondOfFour at accepted
  split at accepted
  · simp only [Bool.and_eq_true, decide_eq_true_eq] at accepted
    omega
  · split at accepted
    · simp only [Bool.and_eq_true, decide_eq_true_eq] at accepted
      omega
    · have bounds := bounds_of_isContinuation accepted
      omega

theorem encodeChar_ofNat_one {first : UInt8} (small : first.toNat < 0x80) :
    encodeChar (Char.ofNat first.toNat) = [first] := by
  have code := toNat_ofNat_of_valid
    (show first.toNat.isValidChar from .inl (by omega))
  unfold encodeChar
  simp only [code]
  rw [if_pos small, ofNat_eq_byte first rfl]

theorem encodeChar_ofNat_two {first second : UInt8}
    (lead : 0xC2 ≤ first.toNat ∧ first.toNat < 0xE0)
    (bounds : 0x80 ≤ second.toNat ∧ second.toNat ≤ 0xBF) :
    encodeChar (Char.ofNat
      ((first.toNat - 0xC0) * 0x40 + payload second)) = [first, second] := by
  have code := toNat_ofNat_of_valid
    (show ((first.toNat - 0xC0) * 0x40 + payload second).isValidChar from
      .inl (by unfold payload; omega))
  unfold encodeChar
  simp only [code]
  unfold payload
  rw [if_neg (by omega), if_pos (by omega), ofNat_eq_byte first (by omega),
    ofNat_eq_byte second (by omega)]

theorem encodeChar_ofNat_three {first second third : UInt8}
    (lead : 0xE0 ≤ first.toNat ∧ first.toNat < 0xF0)
    (accepted : isSecondOfThree first second = true)
    (bounds : 0x80 ≤ third.toNat ∧ third.toNat ≤ 0xBF) :
    encodeChar (Char.ofNat ((first.toNat - 0xE0) * 0x1000 +
      payload second * 0x40 + payload third)) = [first, second, third] := by
  obtain ⟨secondBounds, longest, surrogate⟩ :=
    bounds_of_isSecondOfThree accepted
  have code := toNat_ofNat_of_valid
    (show ((first.toNat - 0xE0) * 0x1000 + payload second * 0x40 +
      payload third).isValidChar from by
        unfold payload Nat.isValidChar
        omega)
  unfold encodeChar
  simp only [code]
  unfold payload
  rw [if_neg (by omega), if_neg (by omega), if_pos (by omega),
    ofNat_eq_byte first (by omega), ofNat_eq_byte second (by omega),
    ofNat_eq_byte third (by omega)]

theorem encodeChar_ofNat_four {first second third fourth : UInt8}
    (lead : 0xF0 ≤ first.toNat ∧ first.toNat < 0xF5)
    (accepted : isSecondOfFour first second = true)
    (bounds : 0x80 ≤ third.toNat ∧ third.toNat ≤ 0xBF)
    (lastBounds : 0x80 ≤ fourth.toNat ∧ fourth.toNat ≤ 0xBF) :
    encodeChar (Char.ofNat ((first.toNat - 0xF0) * 0x40000 +
      payload second * 0x1000 + payload third * 0x40 + payload fourth)) =
      [first, second, third, fourth] := by
  obtain ⟨secondBounds, longest, last⟩ := bounds_of_isSecondOfFour accepted
  have code := toNat_ofNat_of_valid
    (show ((first.toNat - 0xF0) * 0x40000 + payload second * 0x1000 +
      payload third * 0x40 + payload fourth).isValidChar from by
        unfold payload Nat.isValidChar
        omega)
  unfold encodeChar
  simp only [code]
  unfold payload
  rw [if_neg (by omega), if_neg (by omega), if_neg (by omega),
    ofNat_eq_byte first (by omega), ofNat_eq_byte second (by omega),
    ofNat_eq_byte third (by omega), ofNat_eq_byte fourth (by omega)]

/-- A character that is read has the bytes it was read from as its
sequence. -/
theorem encodeChar_of_readChar {first : UInt8} {following : Bytes}
    {char : Char} {count : Nat}
    (read : readChar first following = .ok (char, count)) :
    encodeChar char = first :: following.take count := by
  unfold readChar at read
  dsimp only at read
  split at read
  case isTrue one =>
    obtain ⟨rfl, rfl⟩ := Prod.mk.inj (Except.ok.inj read)
    exact encodeChar_ofNat_one one
  split at read
  case isTrue => cases read
  split at read
  case isTrue two =>
    cases following with
    | nil => cases read
    | cons second others =>
        dsimp only at read
        split at read
        case isTrue continues =>
          obtain ⟨rfl, rfl⟩ := Prod.mk.inj (Except.ok.inj read)
          exact encodeChar_ofNat_two (by omega)
            (bounds_of_isContinuation continues)
        case isFalse => cases read
  split at read
  case isTrue three =>
    cases following with
    | nil => cases read
    | cons second others =>
        dsimp only at read
        split at read
        case isTrue => cases read
        case isFalse accepted =>
          cases others with
          | nil => cases read
          | cons third others =>
              dsimp only at read
              split at read
              case isTrue continues =>
                obtain ⟨rfl, rfl⟩ := Prod.mk.inj (Except.ok.inj read)
                exact encodeChar_ofNat_three (by omega)
                  (by simpa using accepted)
                  (bounds_of_isContinuation continues)
              case isFalse => cases read
  split at read
  case isTrue four =>
    cases following with
    | nil => cases read
    | cons second others =>
        dsimp only at read
        split at read
        case isTrue => cases read
        case isFalse accepted =>
          cases others with
          | nil => cases read
          | cons third others =>
              dsimp only at read
              split at read
              case isTrue => cases read
              case isFalse continues =>
                cases others with
                | nil => cases read
                | cons fourth others =>
                    dsimp only at read
                    split at read
                    case isTrue last =>
                      obtain ⟨rfl, rfl⟩ := Prod.mk.inj (Except.ok.inj read)
                      exact encodeChar_ofNat_four (by omega)
                        (by simpa using accepted)
                        (bounds_of_isContinuation (by simpa using continues))
                        (bounds_of_isContinuation last)
                    case isFalse => cases read
  case isFalse => cases read

/-- The characters that are read spell the bytes they were read from. -/
theorem encode_of_decodeFrom {position inside : Nat} {bytes : Bytes}
    {chars : List Char}
    (read : decodeFrom position inside bytes = .ok chars) :
    encode chars = bytes.drop inside := by
  induction bytes generalizing position inside chars with
  | nil =>
      rw [decodeFrom] at read
      cases read
      rw [List.drop_nil]
      rfl
  | cons first rest induction =>
      cases inside with
      | succ inside =>
          rw [decodeFrom] at read
          exact induction read
      | zero =>
          rw [decodeFrom] at read
          cases sequence : readChar first rest with
          | error width =>
              rw [sequence] at read
              cases read
          | ok found =>
              obtain ⟨char, following⟩ := found
              simp only [sequence] at read
              cases others : decodeFrom (position + 1) following rest with
              | error error =>
                  rw [others] at read
                  cases read
              | ok later =>
                  rw [others] at read
                  cases read
                  change encodeChar char ++ encode later = first :: rest
                  rw [encodeChar_of_readChar sequence, induction others,
                    List.cons_append, List.take_append_drop]

theorem ofString_of_toString? {bytes : Bytes} {text : String}
    (read : toString? bytes = .ok text) : ofString text = bytes := by
  unfold toString? decode at read
  cases found : decodeFrom 0 0 bytes with
  | error error =>
      rw [found] at read
      cases read
  | ok chars =>
      rw [found] at read
      cases read
      rw [ofString, String.toList_ofList]
      exact encode_of_decodeFrom found

end SlotStorage.Utf8
