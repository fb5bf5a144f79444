import SlotStorage.Bytes

/-!
# Bit streams

The bits of a byte string are numbered from the low bit of its first byte.
Table descriptions are read upward from the start.  Coded data is read downward
from the end: the highest set bit of the last byte is a mark, and the bits
below it follow, from high to low.
-/

namespace SlotStorage.Zstd

/-- The number formed by `count` bytes from a place on; bytes past the end are
zero. -/
def bytesAt (bytes : Array UInt8) (start : Nat) : Nat → Nat
  | 0 => 0
  | count + 1 =>
    (bytes.getD start 0).toNat + 256 * bytesAt bytes (start + 1) count

/-- The number formed by `count` bits from a bit on; bits past the end are
zero. -/
def bitsAt (bytes : Array UInt8) (first count : Nat) : Nat :=
  let offset := first % 8
  (bytesAt bytes (first / 8) ((offset + count + 7) / 8) >>> offset)
    % (1 <<< count)

/-- A bit stream read downward. -/
structure BitStream where
  bytes : Array UInt8
  /-- The count of bits that are still to be read. -/
  remaining : Nat

namespace BitStream

/-- The stream in a byte string, unless the mark is missing. -/
def ofBytes? (bytes : Array UInt8) : Option BitStream :=
  let last := (bytes.getD (bytes.size - 1) 0).toNat
  if bytes.size = 0 ∨ last = 0 then none
  else some ⟨bytes, 8 * (bytes.size - 1) + Nat.log2 last⟩

/-- The stream that ends before a place and may be read down to the first byte;
a mark may be missing. -/
def endingAt (bytes : Array UInt8) (stop : Nat) : BitStream :=
  let last := (bytes.getD (stop - 1) 0).toNat
  ⟨bytes, if last = 0 then 8 * stop else 8 * (stop - 1) + Nat.log2 last⟩

/-- The number formed by the next bits, without reading them; missing bits are
zero. -/
def peek (stream : BitStream) (count : Nat) : Nat :=
  if count ≤ stream.remaining then
    bitsAt stream.bytes (stream.remaining - count) count
  else bitsAt stream.bytes 0 stream.remaining <<< (count - stream.remaining)

def skip? (stream : BitStream) (count : Nat) : Option BitStream :=
  if count ≤ stream.remaining then
    some { stream with remaining := stream.remaining - count }
  else none

/-- Reads the number formed by the next bits, unless there are too few. -/
def read? (stream : BitStream) (count : Nat) : Option (Nat × BitStream) :=
  match stream.skip? count with
  | some rest => some (bitsAt stream.bytes rest.remaining count, rest)
  | none => none

end BitStream

end SlotStorage.Zstd
