import Mathlib.Algebra.Group.Nat.Defs
import SlotStorage.Word

/-!
# Words and the numbers they spell

A byte string and the number that it spells determine each other once the
width is fixed.  Counts are small numbers, so a word that holds a count gives
it back, and only the word of the count zero is the empty word.
-/

namespace SlotStorage

namespace Bytes

theorem ofLittleEndian_littleEndian {count value : Nat}
    (small : value < 256 ^ count) :
    ofLittleEndian (littleEndian count value) = value := by
  induction count generalizing value with
  | zero =>
      have zero : value = 0 := by simpa using small
      rw [zero]
      rfl
  | succ count induction =>
      have highSmall : value / 256 < 256 ^ count := by
        rw [Nat.pow_succ] at small
        exact Nat.div_lt_of_lt_mul (by omega)
      have lowByte : (UInt8.ofNat (value % 256)).toNat = value % 256 := by
        simp
      rw [littleEndian, ofLittleEndian, lowByte, induction highSmall]
      omega

theorem ofLittleEndian_lt (bytes : Bytes) :
    ofLittleEndian bytes < 256 ^ bytes.length := by
  induction bytes with
  | nil => simp [ofLittleEndian]
  | cons byte rest induction =>
      have byteSmall : byte.toNat < 256 := byte.toNat_lt
      rw [ofLittleEndian, List.length_cons, Nat.pow_succ]
      omega

theorem ofBigEndian_bigEndian {count value : Nat}
    (small : value < 256 ^ count) :
    ofBigEndian (bigEndian count value) = value := by
  rw [ofBigEndian, bigEndian, List.reverse_reverse]
  exact ofLittleEndian_littleEndian small

theorem ofBigEndian_lt (bytes : Bytes) :
    ofBigEndian bytes < 256 ^ bytes.length := by
  simpa [ofBigEndian] using ofLittleEndian_lt bytes.reverse

/-- The last byte is the lowest one. -/
theorem ofBigEndian_concat (bytes : Bytes) (byte : UInt8) :
    ofBigEndian (bytes ++ [byte]) =
      byte.toNat + 256 * ofBigEndian bytes := by
  simp [ofBigEndian, ofLittleEndian]

end Bytes

namespace Octets

variable {width : Nat}

@[simp] theorem length_toBytes (number : Octets width) :
    number.toBytes.length = width :=
  Bytes.length_bigEndian width number.toNat

theorem toNat_lt (number : Octets width) : number.toNat < 256 ^ width := by
  have bound : number.toNat < 2 ^ (8 * width) := number.isLt
  rwa [Nat.pow_mul] at bound

theorem toNat_ofBytes {bytes : Bytes} (exactWidth : bytes.length = width) :
    (ofBytes width bytes).toNat = Bytes.ofBigEndian bytes := by
  have bound : Bytes.ofBigEndian bytes < 2 ^ (8 * width) := by
    rw [Nat.pow_mul, ← exactWidth]
    exact Bytes.ofBigEndian_lt bytes
  rw [ofBytes, BitVec.toNat_ofNat, Nat.mod_eq_of_lt bound]

theorem toBytes_ofBytes {bytes : Bytes} (exactWidth : bytes.length = width) :
    (ofBytes width bytes).toBytes = bytes := by
  rw [toBytes, toNat_ofBytes exactWidth, ← exactWidth]
  exact Bytes.bigEndian_ofBigEndian bytes

theorem ofBytes_toBytes (number : Octets width) :
    ofBytes width number.toBytes = number := by
  apply BitVec.eq_of_toNat_eq
  rw [toNat_ofBytes (length_toBytes number), toBytes]
  exact Bytes.ofBigEndian_bigEndian number.toNat_lt

theorem ofBytes?_toBytes (number : Octets width) :
    ofBytes? width number.toBytes = some number := by
  rw [ofBytes?, if_pos (length_toBytes number), ofBytes_toBytes]

end Octets

namespace Word

theorem countBound_lt_bound : countBound < bound := by
  decide

theorem toNat_ofNat {value : Nat} (small : value < bound) :
    (BitVec.ofNat (8 * 32) value : Word).toNat = value := by
  rw [BitVec.toNat_ofNat]
  exact Nat.mod_eq_of_lt small

theorem toNat_ofCount {count : Nat} (small : count < countBound) :
    (ofCount count).toNat = count :=
  toNat_ofNat (Nat.lt_trans small countBound_lt_bound)

theorem toCount?_ofCount {count : Nat} (small : count < countBound) :
    (ofCount count).toCount? = some count := by
  rw [toCount?, toNat_ofCount small, if_pos small]

theorem ofCount_injective {left right : Nat}
    (leftSmall : left < countBound) (rightSmall : right < countBound)
    (equality : ofCount left = ofCount right) : left = right := by
  rw [← toNat_ofCount leftSmall, ← toNat_ofCount rightSmall, equality]

theorem ofCount_eq_zero_iff {count : Nat} (small : count < countBound) :
    ofCount count = 0 ↔ count = 0 := by
  constructor
  · intro equality
    exact ofCount_injective small (by decide) equality
  · intro zero
    rw [zero]
    rfl

/-- A place counted from one is never the word for "nowhere". -/
theorem ofCount_succ_ne_zero {count : Nat} (small : count + 1 < countBound) :
    ofCount (count + 1) ≠ 0 := by
  rw [Ne, ofCount_eq_zero_iff small]
  exact Nat.succ_ne_zero count

end Word

end SlotStorage
