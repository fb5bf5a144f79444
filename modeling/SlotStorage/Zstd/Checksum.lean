import SlotStorage.Bytes

/-!
# The checksum of a frame's content

A frame may end with the low half of the 64-bit xxHash of its content, taken
with seed zero.
-/

namespace SlotStorage.Zstd.Checksum

def prime1 : UInt64 := 11400714785074694791

def prime2 : UInt64 := 14029467366897019727

def prime3 : UInt64 := 1609587929392839161

def prime4 : UInt64 := 9650029242287828579

def prime5 : UInt64 := 2870177450012600261

/-- Moves the bits of a word up by an amount between 1 and 63, around the
end. -/
def rotateUp (word amount : UInt64) : UInt64 :=
  (word <<< amount) ||| (word >>> (64 - amount))

/-- The number spelled by `count` bytes from a place on, least significant
first. -/
def wordAt (content : Array UInt8) (start : Nat) : Nat → UInt64
  | 0 => 0
  | count + 1 =>
    (content.getD start 0).toUInt64 ||| (wordAt content (start + 1) count <<< 8)

def round (sum input : UInt64) : UInt64 :=
  rotateUp (sum + input * prime2) 31 * prime1

/-- The four sums over blocks of 32 bytes. -/
structure Sums where
  sum1 : UInt64
  sum2 : UInt64
  sum3 : UInt64
  sum4 : UInt64

/-- Takes in the given count of 32-byte blocks from a place on. -/
def Sums.stripes (content : Array UInt8) : Nat → Nat → Sums → Sums
  | 0, _, sums => sums
  | count + 1, start, sums =>
    Sums.stripes content count (start + 32)
      ⟨round sums.sum1 (wordAt content start 8),
        round sums.sum2 (wordAt content (start + 8) 8),
        round sums.sum3 (wordAt content (start + 16) 8),
        round sums.sum4 (wordAt content (start + 24) 8)⟩

def merge (hash sum : UInt64) : UInt64 :=
  (hash ^^^ round 0 sum) * prime1 + prime4

def afterStripes (content : Array UInt8) : UInt64 :=
  if content.size < 32 then prime5
  else
    let sums := Sums.stripes content (content.size / 32) 0
      ⟨prime1 + prime2, prime2, 0, 0 - prime1⟩
    let hash := rotateUp sums.sum1 1 + rotateUp sums.sum2 7
      + rotateUp sums.sum3 12 + rotateUp sums.sum4 18
    merge (merge (merge (merge hash sums.sum1) sums.sum2) sums.sum3) sums.sum4

def afterWords (content : Array UInt8) : Nat → Nat → UInt64 → UInt64
  | 0, _, hash => hash
  | count + 1, start, hash =>
    afterWords content count (start + 8)
      (rotateUp (hash ^^^ round 0 (wordAt content start 8)) 27 * prime1
        + prime4)

def afterBytes (content : Array UInt8) : Nat → Nat → UInt64 → UInt64
  | 0, _, hash => hash
  | count + 1, start, hash =>
    afterBytes content count (start + 1)
      (rotateUp (hash ^^^ ((content.getD start 0).toUInt64 * prime5)) 11
        * prime1)

def finish (hash : UInt64) : UInt64 :=
  let hash := (hash ^^^ (hash >>> 33)) * prime2
  let hash := (hash ^^^ (hash >>> 29)) * prime3
  hash ^^^ (hash >>> 32)

def hash (content : Array UInt8) : UInt64 :=
  let rest := content.size % 32
  let start := content.size - rest
  let hash := afterStripes content + UInt64.ofNat content.size
  let hash := afterWords content (rest / 8) start hash
  let start := start + rest / 8 * 8
  let rest := rest % 8
  let hash :=
    if rest < 4 then hash
    else
      rotateUp (hash ^^^ (wordAt content start 4 * prime1)) 23 * prime2
        + prime3
  let start := if rest < 4 then start else start + 4
  finish (afterBytes content (rest % 4) start hash)

/-- The checksum of a content: the low half of its hash. -/
def ofContent (content : Array UInt8) : Nat :=
  (hash content).toNat % 4294967296

end SlotStorage.Zstd.Checksum
