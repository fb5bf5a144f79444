/-!
# Byte strings and the numbers they spell

A number is written in a fixed count of bytes, most or least significant byte
first.  Reading back what was written gives the number modulo a power of 256,
and every byte string is the spelling of its own value.
-/

namespace SlotStorage

/-- A byte string, as hash functions, blobs and codecs see it. -/
abbrev Bytes := List UInt8

namespace Bytes

def littleEndian : Nat → Nat → Bytes
  | 0, _ => []
  | count + 1, value =>
    UInt8.ofNat (value % 256) :: littleEndian count (value / 256)

def bigEndian (count value : Nat) : Bytes :=
  (littleEndian count value).reverse

/-- The number that a byte string spells, least significant byte first. -/
def ofLittleEndian : Bytes → Nat
  | [] => 0
  | byte :: rest => byte.toNat + 256 * ofLittleEndian rest

/-- The number that a byte string spells, most significant byte first. -/
def ofBigEndian (bytes : Bytes) : Nat :=
  ofLittleEndian bytes.reverse

/-- Byte strings are ordered by their first difference, a shorter one before
its extensions. -/
def compare : Bytes → Bytes → Ordering
  | [], [] => .eq
  | [], _ :: _ => .lt
  | _ :: _, [] => .gt
  | left :: lefts, right :: rights =>
    if left < right then .lt
    else if right < left then .gt
    else compare lefts rights

@[simp] theorem length_littleEndian (count value : Nat) :
    (littleEndian count value).length = count := by
  induction count generalizing value with
  | zero => rfl
  | succ count induction => simp [littleEndian, induction]

@[simp] theorem length_bigEndian (count value : Nat) :
    (bigEndian count value).length = count := by
  rw [bigEndian, List.length_reverse, length_littleEndian]

theorem littleEndian_ofLittleEndian (bytes : Bytes) :
    littleEndian bytes.length (ofLittleEndian bytes) = bytes := by
  induction bytes with
  | nil => rfl
  | cons byte rest induction =>
      have small : byte.toNat < 256 := byte.toNat_lt
      have low : (byte.toNat + 256 * ofLittleEndian rest) % 256 =
          byte.toNat := by
        omega
      have high : (byte.toNat + 256 * ofLittleEndian rest) / 256 =
          ofLittleEndian rest := by
        omega
      simp only [List.length_cons, ofLittleEndian, littleEndian, low, high,
        induction, UInt8.ofNat_toNat]

theorem bigEndian_ofBigEndian (bytes : Bytes) :
    bigEndian bytes.length (ofBigEndian bytes) = bytes := by
  have reversed := littleEndian_ofLittleEndian bytes.reverse
  rw [List.length_reverse] at reversed
  rw [bigEndian, ofBigEndian, reversed, List.reverse_reverse]

end Bytes

end SlotStorage
