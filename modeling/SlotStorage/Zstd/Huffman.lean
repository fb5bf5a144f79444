import SlotStorage.Zstd.Fse

/-!
# Huffman codes for literals

A code is described by the weights of its symbols: the heavier a symbol, the
shorter its code.  The weight of the last symbol is not written, because it
fills the sum up to a power of two.
-/

namespace SlotStorage.Zstd.Huffman

def maxLength : Nat := 12

/-- What the next bits stand for: a symbol and the length of its code. -/
structure Entry where
  symbol : UInt8
  bits : Nat
  deriving Inhabited

/-- A code, looked up by as many bits as its longest code has. -/
structure Table where
  length : Nat
  entries : Array Entry

/-- Reads weights from two automata in turn, until the stream has too few bits
for the next state of one of them; then the other's symbol is the last.  The
count bounds the weights. -/
def readWeights (table : Fse.Table) :
    Nat → Fse.State → Fse.State → BitStream → Option (List Nat)
  | 0, _, _, _ => none
  | count + 1, current, other, stream =>
    match table.next? current stream with
    | none => some [current.symbol, other.symbol]
    | some (next, stream) =>
      match readWeights table count other next stream with
      | some weights => some (current.symbol :: weights)
      | none => none

def codedWeights? (bytes : Array UInt8) : Option (List Nat) := do
  let (distribution, size) ← Fse.Distribution.read? bytes 256 6
  let table := Fse.Table.ofDistribution distribution
  let stream ← BitStream.ofBytes? (bytes.extract size bytes.size)
  let (first, stream) ← table.start? stream
  let (second, stream) ← table.start? stream
  readWeights table 254 first second stream

def plainWeights (bytes : Array UInt8) (count : Nat) : List Nat :=
  (List.range count).map fun index =>
    let byte := (bytes.getD (index / 2) 0).toNat
    if index % 2 = 0 then byte / 16 else byte % 16

def share (weight : Nat) : Nat :=
  (1 <<< weight) / 2

/-- The weights together with the one that is not written, and the length of
the longest code. -/
def complete? (weights : List Nat) : Option (List Nat × Nat) :=
  let total := weights.foldl (fun sum weight => sum + share weight) 0
  if weights.any (maxLength < ·) ∨ total = 0 then none
  else
    let length := Nat.log2 total + 1
    let rest := (1 <<< length) - total
    let all := weights ++ [Nat.log2 rest + 1]
    let ones := all.count 1
    if maxLength < length ∨ 1 <<< Nat.log2 rest ≠ rest ∨ ones < 2
        ∨ ones % 2 = 1 then none
    else some (all, length)

/-- The entries of the symbols of one weight, in the order of the symbols. -/
def entriesOf (length weight : Nat) (weights : List Nat) : List Entry :=
  weights.zipIdx.flatMap fun (other, symbol) =>
    if other = weight then
      List.replicate (share weight) ⟨UInt8.ofNat symbol, length + 1 - weight⟩
    else []

/-- The code with the given weights: the lightest symbols come first. -/
def Table.ofWeights (weights : List Nat) (length : Nat) : Table :=
  ⟨length, ((List.range length).flatMap fun weight =>
    entriesOf length (weight + 1) weights).toArray⟩

/-- Reads the description of a code.  The result holds the count of bytes
read. -/
def Table.read? (bytes : Array UInt8) : Option (Table × Nat) :=
  if bytes.size = 0 then none
  else
    let header := (bytes.getD 0 0).toNat
    let size := if 128 ≤ header then (header - 127 + 1) / 2 else header
    if bytes.size < size + 1 then none
    else
      let body := bytes.extract 1 (size + 1)
      let weights :=
        if 128 ≤ header then some (plainWeights body (header - 127))
        else codedWeights? body
      match weights.bind complete? with
      | some (weights, length) =>
        some (Table.ofWeights weights length, size + 1)
      | none => none

/-- Reads the given count of symbols from a stream onto the end of those read
before. -/
def decodeStream (table : Table) :
    Nat → BitStream → Array UInt8 → Option (Array UInt8 × BitStream)
  | 0, stream, symbols => some (symbols, stream)
  | count + 1, stream, symbols =>
    let entry := table.entries.getD (stream.peek table.length) default
    match stream.skip? entry.bits with
    | some stream => decodeStream table count stream (symbols.push entry.symbol)
    | none => none

/-- Reads symbols from a stream that has to end with the last of them. -/
def decodeWhole (table : Table) (bytes : Array UInt8) (count : Nat)
    (symbols : Array UInt8) : Option (Array UInt8) := do
  let (symbols, stream) ←
    decodeStream table count (← BitStream.ofBytes? bytes) symbols
  if stream.remaining = 0 then some symbols else none

/-- Reads symbols from the stream that ends at a place.  Bits may be left over,
and a stream that runs out goes on in the bytes before it. -/
def decodeOpen (table : Table) (bytes : Array UInt8) (stop count : Nat)
    (symbols : Array UInt8) : Option (Array UInt8) :=
  (decodeStream table count (BitStream.endingAt bytes stop) symbols).map
    Prod.fst

/-- Reads symbols from four streams, the first three of which have equally many
and sizes written in front.  Only short streams, and streams under the longest
codes, are held to their ends. -/
def decodeFour (table : Table) (bytes : Array UInt8) (count : Nat) :
    Option (Array UInt8) :=
  let size1 := bytesAt bytes 0 2
  let size2 := bytesAt bytes 2 2
  let size3 := bytesAt bytes 4 2
  let start2 := 6 + size1
  let start3 := start2 + size2
  let start4 := start3 + size3
  let quarter := (count + 3) / 4
  if bytes.size < 10 ∨ bytes.size < start4 ∨ count < 3 * quarter then none
  else if 8 ≤ size1 ∧ 8 ≤ size2 ∧ 8 ≤ size3 ∧ start4 + 8 ≤ bytes.size
      ∧ table.length < maxLength ∧ 3 * quarter < count then do
    let symbols ← decodeOpen table bytes start2 quarter (Array.mkEmpty count)
    let symbols ← decodeOpen table bytes start3 quarter symbols
    let symbols ← decodeOpen table bytes start4 quarter symbols
    decodeOpen table bytes bytes.size (count - 3 * quarter) symbols
  else do
    let symbols ← decodeWhole table (bytes.extract 6 start2) quarter
      (Array.mkEmpty count)
    let symbols ← decodeWhole table (bytes.extract start2 start3) quarter
      symbols
    let symbols ← decodeWhole table (bytes.extract start3 start4) quarter
      symbols
    decodeWhole table (bytes.extract start4 bytes.size) (count - 3 * quarter)
      symbols

end SlotStorage.Zstd.Huffman
