import SlotStorage.Bytes

/-!
# Keccak-256

The sponge over the permutation of 1600 bits, with a rate of 136 bytes, the
padding that starts with a one byte, and a digest of 32 bytes.  A state is five
planes of five lanes of 64 bits.
-/

namespace SlotStorage.Keccak

/-- Five lanes of a state. -/
structure Plane where
  lane0 : UInt64
  lane1 : UInt64
  lane2 : UInt64
  lane3 : UInt64
  lane4 : UInt64
  deriving Inhabited

/-- The 1600 bits that the permutation works on. -/
structure State where
  plane0 : Plane
  plane1 : Plane
  plane2 : Plane
  plane3 : Plane
  plane4 : Plane
  deriving Inhabited

/-- Moves the bits of a lane up by an amount between 1 and 63, around the
end. -/
def rotate (lane amount : UInt64) : UInt64 :=
  (lane <<< amount) ||| (lane >>> (64 - amount))

namespace Plane

def zero : Plane := ⟨0, 0, 0, 0, 0⟩

def xor (left right : Plane) : Plane :=
  ⟨left.lane0 ^^^ right.lane0, left.lane1 ^^^ right.lane1,
    left.lane2 ^^^ right.lane2, left.lane3 ^^^ right.lane3,
    left.lane4 ^^^ right.lane4⟩

/-- Each lane takes in the two lanes after it: the one not set together with
the second. -/
def mix (p : Plane) : Plane :=
  ⟨p.lane0 ^^^ (~~~p.lane1 &&& p.lane2), p.lane1 ^^^ (~~~p.lane2 &&& p.lane3),
    p.lane2 ^^^ (~~~p.lane3 &&& p.lane4), p.lane3 ^^^ (~~~p.lane4 &&& p.lane0),
    p.lane4 ^^^ (~~~p.lane0 &&& p.lane1)⟩

/-- What the parities of the columns add to each column: the parity on its left
and the rotated parity on its right. -/
def spread (p : Plane) : Plane :=
  ⟨p.lane4 ^^^ rotate p.lane1 1, p.lane0 ^^^ rotate p.lane2 1,
    p.lane1 ^^^ rotate p.lane3 1, p.lane2 ^^^ rotate p.lane4 1,
    p.lane3 ^^^ rotate p.lane0 1⟩

end Plane

namespace State

def zero : State := ⟨.zero, .zero, .zero, .zero, .zero⟩

def diffuse (s : State) : State :=
  let effect := (s.plane0.xor
    (s.plane1.xor (s.plane2.xor (s.plane3.xor s.plane4)))).spread
  ⟨s.plane0.xor effect, s.plane1.xor effect, s.plane2.xor effect,
    s.plane3.xor effect, s.plane4.xor effect⟩

/-- Rotates every lane by its own amount and moves it to its new place. -/
def scatter (s : State) : State :=
  ⟨
    ⟨s.plane0.lane0, rotate s.plane1.lane1 44, rotate s.plane2.lane2 43,
      rotate s.plane3.lane3 21, rotate s.plane4.lane4 14⟩,
    ⟨rotate s.plane0.lane3 28, rotate s.plane1.lane4 20,
      rotate s.plane2.lane0 3, rotate s.plane3.lane1 45,
      rotate s.plane4.lane2 61⟩,
    ⟨rotate s.plane0.lane1 1, rotate s.plane1.lane2 6,
      rotate s.plane2.lane3 25, rotate s.plane3.lane4 8,
      rotate s.plane4.lane0 18⟩,
    ⟨rotate s.plane0.lane4 27, rotate s.plane1.lane0 36,
      rotate s.plane2.lane1 10, rotate s.plane3.lane2 15,
      rotate s.plane4.lane3 56⟩,
    ⟨rotate s.plane0.lane2 62, rotate s.plane1.lane3 55,
      rotate s.plane2.lane4 39, rotate s.plane3.lane0 41,
      rotate s.plane4.lane1 2⟩⟩

def round (s : State) (constant : UInt64) : State :=
  let moved := s.diffuse.scatter
  let first := moved.plane0.mix
  ⟨⟨first.lane0 ^^^ constant, first.lane1, first.lane2, first.lane3,
      first.lane4⟩,
    moved.plane1.mix, moved.plane2.mix, moved.plane3.mix, moved.plane4.mix⟩

end State

def roundConstants : List UInt64 :=
  [0x0000000000000001, 0x0000000000008082, 0x800000000000808A,
   0x8000000080008000, 0x000000000000808B, 0x0000000080000001,
   0x8000000080008081, 0x8000000000008009, 0x000000000000008A,
   0x0000000000000088, 0x0000000080008009, 0x000000008000000A,
   0x000000008000808B, 0x800000000000008B, 0x8000000000008089,
   0x8000000000008003, 0x8000000000008002, 0x8000000000000080,
   0x000000000000800A, 0x800000008000000A, 0x8000000080008081,
   0x8000000000008080, 0x0000000080000001, 0x8000000080008008]

def permute (s : State) : State :=
  roundConstants.foldl State.round s

def laneOf : Bytes → UInt64
  | [b0, b1, b2, b3, b4, b5, b6, b7] =>
    b0.toUInt64 ||| (b1.toUInt64 <<< 8) ||| (b2.toUInt64 <<< 16)
      ||| (b3.toUInt64 <<< 24) ||| (b4.toUInt64 <<< 32)
      ||| (b5.toUInt64 <<< 40) ||| (b6.toUInt64 <<< 48)
      ||| (b7.toUInt64 <<< 56)
  | _ => 0

def laneAt (block : Bytes) (index : Nat) : UInt64 :=
  laneOf ((block.drop (8 * index)).take 8)

def absorb (s : State) (block : Bytes) : State :=
  let input : State :=
    ⟨⟨laneAt block 0, laneAt block 1, laneAt block 2, laneAt block 3,
        laneAt block 4⟩,
      ⟨laneAt block 5, laneAt block 6, laneAt block 7, laneAt block 8,
        laneAt block 9⟩,
      ⟨laneAt block 10, laneAt block 11, laneAt block 12, laneAt block 13,
        laneAt block 14⟩,
      ⟨laneAt block 15, laneAt block 16, 0, 0, 0⟩, .zero⟩
  permute ⟨s.plane0.xor input.plane0, s.plane1.xor input.plane1,
    s.plane2.xor input.plane2, s.plane3.xor input.plane3, s.plane4⟩

def rate : Nat := 136

/-- Completes the last bytes of a message to a block: a one byte, zeros, and
the top bit of the last byte. -/
def padding (tail : Bytes) : Bytes :=
  if tail.length + 1 = rate then tail ++ [0x81]
  else tail ++ [0x01] ++ List.replicate (rate - tail.length - 2) 0 ++ [0x80]

def absorbAll : Nat → State → Bytes → State
  | 0, s, tail => absorb s (padding tail)
  | blocks + 1, s, message =>
    absorbAll blocks (absorb s (message.take rate)) (message.drop rate)

def laneBytes (lane : UInt64) : Bytes :=
  Bytes.littleEndian 8 lane.toNat

def digest (message : Bytes) : Bytes :=
  let last := (absorbAll (message.length / rate) .zero message).plane0
  laneBytes last.lane0 ++ laneBytes last.lane1 ++ laneBytes last.lane2
    ++ laneBytes last.lane3

end SlotStorage.Keccak
