import SlotStorage.Bytes

/-!
# BLAKE3

The unkeyed hash with a digest of 32 bytes.  A message is cut into chunks of
1024 bytes, which are the leaves of a binary tree whose left subtrees are
complete; every chunk and every inner node is compressed to a chaining value of
eight words, and the root's is the digest.
-/

namespace SlotStorage.Blake3

/-- Four words, worked on together. -/
structure Row where
  word0 : UInt32
  word1 : UInt32
  word2 : UInt32
  word3 : UInt32
  deriving Inhabited

/-- A chaining value: eight words. -/
structure Chaining where
  low : Row
  high : Row
  deriving Inhabited

/-- The sixteen words that a compression works on. -/
structure State where
  row0 : Row
  row1 : Row
  row2 : Row
  row3 : Row

namespace Row

def add (left right : Row) : Row :=
  ⟨left.word0 + right.word0, left.word1 + right.word1, left.word2 + right.word2,
    left.word3 + right.word3⟩

def xor (left right : Row) : Row :=
  ⟨left.word0 ^^^ right.word0, left.word1 ^^^ right.word1,
    left.word2 ^^^ right.word2, left.word3 ^^^ right.word3⟩

/-- Moves the bits of a word down by an amount between 1 and 31, around the
end. -/
def rotateWord (word amount : UInt32) : UInt32 :=
  (word >>> amount) ||| (word <<< (32 - amount))

def rotateBits (row : Row) (amount : UInt32) : Row :=
  ⟨rotateWord row.word0 amount, rotateWord row.word1 amount,
    rotateWord row.word2 amount, rotateWord row.word3 amount⟩

def turnOne (row : Row) : Row := ⟨row.word1, row.word2, row.word3, row.word0⟩

def turnTwo (row : Row) : Row := ⟨row.word2, row.word3, row.word0, row.word1⟩

def turnThree (row : Row) : Row := ⟨row.word3, row.word0, row.word1, row.word2⟩

/-- The bytes of a row, each word least significant byte first. -/
def toBytes (row : Row) : Bytes :=
  Bytes.littleEndian 4 row.word0.toNat ++ Bytes.littleEndian 4 row.word1.toNat
    ++ Bytes.littleEndian 4 row.word2.toNat
    ++ Bytes.littleEndian 4 row.word3.toNat

end Row

def initial : Chaining :=
  ⟨⟨0x6A09E667, 0xBB67AE85, 0x3C6EF372, 0xA54FF53A⟩,
    ⟨0x510E527F, 0x9B05688C, 0x1F83D9AB, 0x5BE0CD19⟩⟩

/-- A block of sixteen message words. -/
structure Block where
  row0 : Row
  row1 : Row
  row2 : Row
  row3 : Row

namespace Block

def permute (block : Block) : Block :=
  ⟨⟨block.row0.word2, block.row1.word2, block.row0.word3, block.row2.word2⟩,
    ⟨block.row1.word3, block.row0.word0, block.row1.word0, block.row3.word1⟩,
    ⟨block.row0.word1, block.row2.word3, block.row3.word0, block.row1.word1⟩,
    ⟨block.row2.word1, block.row3.word2, block.row3.word3, block.row2.word0⟩⟩

/-- A word of four bytes, least significant first; missing bytes are zero. -/
def wordOf : Bytes → UInt32
  | b0 :: b1 :: b2 :: b3 :: _ =>
    b0.toUInt32 ||| (b1.toUInt32 <<< 8) ||| (b2.toUInt32 <<< 16)
      ||| (b3.toUInt32 <<< 24)
  | [b0, b1, b2] => b0.toUInt32 ||| (b1.toUInt32 <<< 8) ||| (b2.toUInt32 <<< 16)
  | [b0, b1] => b0.toUInt32 ||| (b1.toUInt32 <<< 8)
  | [b0] => b0.toUInt32
  | [] => 0

def rowOf (bytes : Bytes) : Row :=
  ⟨wordOf bytes, wordOf (bytes.drop 4), wordOf (bytes.drop 8),
    wordOf (bytes.drop 12)⟩

def ofBytes (bytes : Bytes) : Block :=
  let second := bytes.drop 16
  let third := second.drop 16
  ⟨rowOf bytes, rowOf second, rowOf third, rowOf (third.drop 16)⟩

def ofChildren (left right : Chaining) : Block :=
  ⟨left.low, left.high, right.low, right.high⟩

end Block

namespace State

def mix (s : State) (first second : Row) : State :=
  let a := (s.row0.add s.row1).add first
  let d := (s.row3.xor a).rotateBits 16
  let c := s.row2.add d
  let b := (s.row1.xor c).rotateBits 12
  let a := (a.add b).add second
  let d := (d.xor a).rotateBits 8
  let c := c.add d
  let b := (b.xor c).rotateBits 7
  ⟨a, b, c, d⟩

def skew (s : State) : State :=
  ⟨s.row0, s.row1.turnOne, s.row2.turnTwo, s.row3.turnThree⟩

def unskew (s : State) : State :=
  ⟨s.row0, s.row1.turnThree, s.row2.turnTwo, s.row3.turnOne⟩

/-- One round: the columns take the first eight message words, the diagonals
the others. -/
def round (s : State) (block : Block) : State :=
  let columns := s.mix
    ⟨block.row0.word0, block.row0.word2, block.row1.word0, block.row1.word2⟩
    ⟨block.row0.word1, block.row0.word3, block.row1.word1, block.row1.word3⟩
  (columns.skew.mix
    ⟨block.row2.word0, block.row2.word2, block.row3.word0, block.row3.word2⟩
    ⟨block.row2.word1, block.row2.word3, block.row3.word1,
      block.row3.word3⟩).unskew

/-- The given count of rounds, with the message words in a new order for
each. -/
def rounds : Nat → State → Block → State
  | 0, s, _ => s
  | count + 1, s, block => rounds count (s.round block) block.permute

end State

def chunkStart : UInt32 := 1

def chunkEnd : UInt32 := 2

def parent : UInt32 := 4

def root : UInt32 := 8

def compress (chaining : Chaining) (block : Block) (counter : Nat)
    (size flags : UInt32) : Chaining :=
  let s := State.rounds 7
    ⟨chaining.low, chaining.high, initial.low,
      ⟨UInt32.ofNat counter, UInt32.ofNat (counter >>> 32), size, flags⟩⟩ block
  ⟨s.row0.xor s.row2, s.row1.xor s.row3⟩

/-- Compresses the blocks of a chunk: `blocks` full ones that are not the last,
and the last. -/
def chunkBlocks (counter : Nat) (final : UInt32) :
    Nat → UInt32 → Chaining → Bytes → Chaining
  | 0, start, chaining, bytes =>
    compress chaining (Block.ofBytes bytes) counter (UInt32.ofNat bytes.length)
      (start ||| chunkEnd ||| final)
  | blocks + 1, start, chaining, bytes =>
    chunkBlocks counter final blocks 0
      (compress chaining (Block.ofBytes (bytes.take 64)) counter 64 start)
      (bytes.drop 64)

/-- The chaining value of a chunk of at most 1024 bytes. -/
def chunk (bytes : Bytes) (counter : Nat) (final : UInt32) : Chaining :=
  chunkBlocks counter final ((bytes.length - 1) / 64) chunkStart initial bytes

/-- The largest power of two below a number that is at least two. -/
def leftShare (count : Nat) : Nat :=
  1 <<< Nat.log2 (count - 1)

/-- The chaining value of the subtree over the given count of chunks, the first
of which has the given number.  The depth bounds the height of the subtree. -/
def subtree : Nat → Nat → Nat → UInt32 → Bytes → Chaining
  | 0, _, counter, final, bytes => chunk bytes counter final
  | depth + 1, chunks, counter, final, bytes =>
    if chunks ≤ 1 then chunk bytes counter final
    else
      let left := leftShare chunks
      compress initial
        (Block.ofChildren
          (subtree depth left counter 0 (bytes.take (1024 * left)))
          (subtree depth (chunks - left) (counter + left) 0
            (bytes.drop (1024 * left))))
        0 64 (parent ||| final)

def digest (message : Bytes) : Bytes :=
  let chunks := (message.length + 1023) / 1024
  let top := subtree (Nat.log2 chunks + 1) chunks 0 root message
  top.low.toBytes ++ top.high.toBytes

end SlotStorage.Blake3
