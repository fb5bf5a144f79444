import SlotStorage.Zstd.Checksum
import SlotStorage.Zstd.Literals
import SlotStorage.Zstd.Sequences

/-!
# Frames

A compressed byte string is a row of frames.  A frame says how far back its
content refers, may announce the length of its content, holds the content in
blocks, and may end with a checksum.  A skippable frame holds no content.  A
short content of known length is read in one piece and any other one block by
block, which bounds its window and its blocks.  Writing stores the content in
plain blocks.
-/

namespace SlotStorage.Zstd

def maxBlock : Nat := 131072

def maxWindow : Nat := 134217729

/-- The longest content that is read in one piece if its length is announced. -/
def maxPiece : Nat := 8192

/-- A byte string cut after the given count of bytes, if it is long enough. -/
def split? (count : Nat) (bytes : Bytes) : Option (Bytes × Bytes) :=
  let first := bytes.take count
  if first.length = count then some (first, bytes.drop count) else none

/-- The number that the given count of bytes spells, least significant first,
and the bytes after them. -/
def number? (count : Nat) (bytes : Bytes) : Option (Nat × Bytes) :=
  match split? count bytes with
  | some (first, rest) => some (Bytes.ofLittleEndian first, rest)
  | none => none

/-- What a frame announces. -/
structure FrameHeader where
  window : Nat
  contentSize : Option Nat
  hasChecksum : Bool
  deriving DecidableEq

namespace FrameHeader

/-- The window that a window byte stands for, unless its size takes more than
32 bits. -/
def windowOf? (byte : Nat) : Option Nat :=
  let size := 1 <<< (byte / 8 + 10)
  if 21 < byte / 8 then none else some (size + size / 8 * (byte % 8))

/-- Says whether the content is read in one piece.  Then the window does not
matter, and a block may add as much as there is room for. -/
def inOnePiece (header : FrameHeader) : Bool :=
  header.contentSize.any (· ≤ maxPiece)

/-- The largest size of a compressed block in this frame, and of its
literals. -/
def blockLimit (header : FrameHeader) : Nat :=
  min header.window maxBlock

def growthLimit (header : FrameHeader) : Nat :=
  if header.inOnePiece then maxPiece else header.blockLimit

/-- Reads the size of the content: in one byte only when the content is its own
window, in two bytes less 256, or in four or eight bytes. -/
def readSize? (code : Nat) (single : Bool) (bytes : Bytes) :
    Option (Option Nat × Bytes) :=
  match code with
  | 0 =>
    if single then (number? 1 bytes).map fun (size, rest) => (some size, rest)
    else some (none, bytes)
  | 1 => (number? 2 bytes).map fun (size, rest) => (some (size + 256), rest)
  | 2 => (number? 4 bytes).map fun (size, rest) => (some size, rest)
  | _ => (number? 8 bytes).map fun (size, rest) => (some size, rest)

def dictionaryBytes (code : Nat) : Nat :=
  match code with
  | 0 => 0
  | 1 => 1
  | 2 => 2
  | _ => 4

/-- Reads what a frame announces.  A dictionary, a reserved bit or a window
that is too large is refused. -/
def read? (bytes : Bytes) : Option (FrameHeader × Bytes) := do
  let (descriptor, bytes) ← number? 1 bytes
  let single := descriptor / 32 % 2 = 1
  if descriptor / 8 % 2 = 1 then none
  else
    let (windowByte, bytes) ←
      if single then some (0, bytes) else number? 1 bytes
    let (dictionary, bytes) ← number? (dictionaryBytes (descriptor % 4)) bytes
    let (size, bytes) ← readSize? (descriptor / 64) single bytes
    let window ← if single then size else windowOf? windowByte
    let header : FrameHeader := ⟨window, size, descriptor / 4 % 2 = 1⟩
    if dictionary ≠ 0 ∨ (maxWindow < window ∧ !header.inOnePiece) then none
    else some (header, bytes)

end FrameHeader

/-- What is kept from block to block of a frame. -/
structure FrameState where
  output : Array UInt8
  code : Option Huffman.Table
  tables : Option SequenceTables
  recent : RecentOffsets
  /-- Says whether the block before was empty. -/
  atEmpty : Bool

namespace FrameState

def initial : FrameState := ⟨#[], none, none, .initial, false⟩

def compressed? (state : FrameState) (header : FrameHeader)
    (block : Array UInt8) : Option FrameState := do
  let literals ← Literals.read? block state.code header.blockLimit
  let last := state.output.size + header.growthLimit
  let (assembly, tables) ← SequenceTables.run? state.tables
    (block.extract literals.next block.size) last
    ⟨state.output, literals.content, 0, state.recent⟩
  let assembly ← assembly.insert? (literals.content.size - assembly.used)
  if last < assembly.output.size then none
  else some ⟨assembly.output, literals.code, tables, assembly.recent, false⟩

/-- Reads a block and adds its content.  The result says whether it is the last
one. -/
def block? (state : FrameState) (header : FrameHeader) (bytes : Bytes) :
    Option (Bool × FrameState × Bytes) := do
  let (descriptor, bytes) ← number? 3 bytes
  let size := descriptor / 8
  let isLast := descriptor % 2 = 1
  match descriptor / 2 % 4 with
  | 0 =>
    let (content, rest) ← split? size bytes
    if header.growthLimit < size then none
    else
      some (isLast, { state with
        output := state.output ++ content, atEmpty := size = 0 }, rest)
  | 1 =>
    let (byte, rest) ← number? 1 bytes
    if header.growthLimit < size then none
    else some (isLast,
      { state with
        output := state.output ++ List.replicate size (UInt8.ofNat byte),
        atEmpty := false }, rest)
  | 2 =>
    let (content, rest) ← split? size bytes
    if header.blockLimit < size then none
    else if size = 0 ∧ !header.inOnePiece then
      some (isLast, { state with atEmpty := true }, rest)
    else some (isLast, ← state.compressed? header content.toArray, rest)
  | _ => none

/-- Reads blocks up to the last one.  The first number bounds how many there
are. -/
def blocks? (header : FrameHeader) :
    Nat → FrameState → Bytes → Option (FrameState × Bytes)
  | 0, _, _ => none
  | count + 1, state, bytes =>
    match state.block? header bytes with
    | none => none
    | some (isLast, state, rest) =>
      if isLast then some (state, rest) else blocks? header count state rest

end FrameState

/-- Says whether a content has the announced length.  Block by block, an empty
last block ends the frame early, so the content may be shorter. -/
def hasSize (header : FrameHeader) (state : FrameState) : Bool :=
  header.contentSize.all fun size =>
    state.output.size = size ∨
      (state.atEmpty ∧ !header.inOnePiece ∧ state.output.size < size)

/-- Compares the checksum after a frame's blocks, if there has to be one. -/
def checked? (header : FrameHeader) (content : Array UInt8) (bytes : Bytes) :
    Option Bytes :=
  if header.hasChecksum then
    match number? 4 bytes with
    | some (checksum, rest) =>
      if checksum = Checksum.ofContent content then some rest else none
    | none => none
  else some bytes

/-- The content of a frame whose mark has been read, and the bytes after the
frame. -/
def frame? (bytes : Bytes) : Option (Bytes × Bytes) := do
  let (header, bytes) ← FrameHeader.read? bytes
  let (state, bytes) ←
    FrameState.blocks? header (bytes.length + 1) .initial bytes
  if hasSize header state then
    let rest ← checked? header state.output bytes
    some (state.output.toList, rest)
  else none

def frameMark : Nat := 0xFD2FB528

def skippableMark : Nat := 0x184D2A50

/-- The contents of a row of frames, one after the other.  The first number
bounds how many there are. -/
def frames? : Nat → Bytes → Option Bytes
  | _, [] => some []
  | 0, _ :: _ => none
  | count + 1, bytes => do
    let (mark, rest) ← number? 4 bytes
    if mark = frameMark then
      let (content, rest) ← frame? rest
      let others ← frames? count rest
      some (content ++ others)
    else if mark / 16 = skippableMark / 16 then
      let (size, rest) ← number? 4 rest
      let (_, rest) ← split? size rest
      frames? count rest
    else none

/-- The content of a compressed byte string, if it is well formed.  There has
to be a frame. -/
def decompress? (bytes : Bytes) : Option Bytes :=
  if bytes.isEmpty then none else frames? bytes.length bytes

def plainBlockHeader (size : Nat) (isLast : Bool) : Bytes :=
  Bytes.littleEndian 3 (8 * size + if isLast then 1 else 0)

/-- Plain blocks with a content: `count` full ones and the last one with the
rest. -/
def plainBlocks : Nat → Bytes → Bytes
  | 0, content => plainBlockHeader content.length true ++ content
  | count + 1, content =>
    plainBlockHeader maxBlock false ++ content.take maxBlock
      ++ plainBlocks count (content.drop maxBlock)

/-- A frame with the given content in plain blocks, under a window of the size
of a block. -/
def compress (content : Bytes) : Bytes :=
  Bytes.littleEndian 4 frameMark ++ [0x00, 0x38]
    ++ plainBlocks (content.length / maxBlock) content

end SlotStorage.Zstd
