import SlotStorage.Zstd.Huffman

/-!
# The literals of a block

A compressed block starts with the bytes that its sequences insert: as they
are, as one repeated byte, or under a Huffman code that the block brings along
or takes over from the block before.
-/

namespace SlotStorage.Zstd

/-- The literals of a block, the code that later blocks may take over, and the
place where the sequences start. -/
structure Literals where
  content : Array UInt8
  code : Option Huffman.Table
  next : Nat

namespace Literals

/-- The size of the literals and the size of the header, when they are not
coded. -/
def plainHeader (block : Array UInt8) : Nat × Nat :=
  let first := bytesAt block 0 1
  match first / 4 % 4 with
  | 1 => (bytesAt block 0 2 / 16, 2)
  | 3 => (bytesAt block 0 3 / 16, 3)
  | _ => (first / 8, 1)

/-- How coded literals are laid out. -/
structure CodedHeader where
  size : Nat
  codedSize : Nat
  headerSize : Nat
  oneStream : Bool

def codedHeader (block : Array UInt8) : CodedHeader :=
  let header := bytesAt block 0 5 / 16
  match bytesAt block 0 1 / 4 % 4 with
  | 0 => ⟨header % 1024, header / 1024 % 1024, 3, true⟩
  | 1 => ⟨header % 1024, header / 1024 % 1024, 3, false⟩
  | 2 => ⟨header % 16384, header / 16384 % 16384, 4, false⟩
  | _ => ⟨header % 262144, header / 262144 % 262144, 5, false⟩

def readPlain? (block : Array UInt8) (code : Option Huffman.Table)
    (limit : Nat) : Option Literals :=
  let (size, start) := plainHeader block
  if limit < size ∨ block.size < start + size then none
  else some ⟨block.extract start (start + size), code, start + size⟩

def readRepeated? (block : Array UInt8) (code : Option Huffman.Table)
    (limit : Nat) : Option Literals :=
  let (size, start) := plainHeader block
  if limit < size ∨ block.size < start + 1 then none
  else some ⟨Array.replicate size (block.getD start 0), code, start + 1⟩

/-- Reads literals under a code; a description of the code stands in front
unless there is one already. -/
def readCoded? (block : Array UInt8) (code : Option Huffman.Table)
    (limit : Nat) : Option Literals :=
  let header := codedHeader block
  let last := header.headerSize + header.codedSize
  if block.size < 5 ∨ limit < header.size
      ∨ (!header.oneStream ∧ header.size < 6)
      ∨ block.size < last then none
  else do
    let body := block.extract header.headerSize last
    let (table, size) ← match code with
      | some table => some (table, 0)
      | none => Huffman.Table.read? body
    if size ≠ 0 ∧ body.size ≤ size then none
    else
      let streams := body.extract size body.size
      let content ←
        if header.oneStream then
          Huffman.decodeWhole table streams header.size
            (Array.mkEmpty header.size)
        else Huffman.decodeFour table streams header.size
      some ⟨content, some table, last⟩

/-- Reads the literals of a block.  There may be no more of them than a block
may hold. -/
def read? (block : Array UInt8) (code : Option Huffman.Table) (limit : Nat) :
    Option Literals :=
  if block.size < 2 then none
  else
    match bytesAt block 0 1 % 4 with
    | 0 => readPlain? block code limit
    | 1 => readRepeated? block code limit
    | 2 => readCoded? block none limit
    | _ => if code.isNone then none else readCoded? block code limit

end Literals

end SlotStorage.Zstd
