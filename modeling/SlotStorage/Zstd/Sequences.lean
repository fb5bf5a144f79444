import SlotStorage.Zstd.Fse

/-!
# The sequences of a block

A sequence inserts some literals and then repeats bytes that lie an offset
back.  Three automata code the lengths and the offset; a small offset value
stands for one of the last three offsets.
-/

namespace SlotStorage.Zstd

/-- A kind of number in a sequence: what its codes are worth, how many bits
follow each, the automaton used when a block brings none along, and the limits
of one that it brings along. -/
structure FieldKind where
  bases : Array Nat
  widths : Array Nat
  usual : Fse.Table
  symbols : Nat
  maxAccuracy : Nat

/-- A share list written with numbers, where -1 stands for a rare symbol. -/
def sharesOf (numbers : List Int) : List Fse.Share :=
  numbers.map fun number => if number < 0 then .rare else .states number.toNat

namespace FieldKind

def literalLength : FieldKind where
  bases := #[0, 1, 2, 3, 4, 5, 6, 7, 8, 9, 10, 11, 12, 13, 14, 15, 16, 18, 20,
    22, 24, 28, 32, 40, 48, 64, 128, 256, 512, 1024, 2048, 4096, 8192, 16384,
    32768, 65536]
  widths := #[0, 0, 0, 0, 0, 0, 0, 0, 0, 0, 0, 0, 0, 0, 0, 0, 1, 1, 1, 1, 2, 2,
    3, 3, 4, 6, 7, 8, 9, 10, 11, 12, 13, 14, 15, 16]
  usual := Fse.Table.ofDistribution ⟨6, sharesOf [4, 3, 2, 2, 2, 2, 2, 2, 2, 2,
    2, 2, 2, 1, 1, 1, 2, 2, 2, 2, 2, 2, 2, 2, 2, 3, 2, 1, 1, 1, 1, 1, -1, -1,
    -1, -1]⟩
  symbols := 36
  maxAccuracy := 9

def matchLength : FieldKind where
  bases := #[3, 4, 5, 6, 7, 8, 9, 10, 11, 12, 13, 14, 15, 16, 17, 18, 19, 20,
    21, 22, 23, 24, 25, 26, 27, 28, 29, 30, 31, 32, 33, 34, 35, 37, 39, 41, 43,
    47, 51, 59, 67, 83, 99, 131, 259, 515, 1027, 2051, 4099, 8195, 16387,
    32771, 65539]
  widths := #[0, 0, 0, 0, 0, 0, 0, 0, 0, 0, 0, 0, 0, 0, 0, 0, 0, 0, 0, 0, 0, 0,
    0, 0, 0, 0, 0, 0, 0, 0, 0, 0, 1, 1, 1, 1, 2, 2, 3, 3, 4, 4, 5, 7, 8, 9, 10,
    11, 12, 13, 14, 15, 16]
  usual := Fse.Table.ofDistribution ⟨6, sharesOf [1, 4, 3, 2, 2, 2, 2, 2, 2, 1,
    1, 1, 1, 1, 1, 1, 1, 1, 1, 1, 1, 1, 1, 1, 1, 1, 1, 1, 1, 1, 1, 1, 1, 1, 1,
    1, 1, 1, 1, 1, 1, 1, 1, 1, 1, 1, -1, -1, -1, -1, -1, -1, -1]⟩
  symbols := 53
  maxAccuracy := 9

/-- The values of offsets: the code is the count of bits below the highest. -/
def offset : FieldKind where
  bases := (Array.range 32).map fun code => 1 <<< code
  widths := Array.range 32
  usual := Fse.Table.ofDistribution ⟨5, sharesOf [1, 1, 1, 1, 1, 1, 2, 2, 2, 1,
    1, 1, 1, 1, 1, 1, 1, 1, 1, 1, 1, 1, 1, 1, -1, -1, -1, -1, -1]⟩
  symbols := 32
  maxAccuracy := 8

/-- The value of a code, with the bits that follow it. -/
def value? (kind : FieldKind) (code : Nat) (stream : BitStream) :
    Option (Nat × BitStream) :=
  match stream.read? (kind.widths.getD code 0) with
  | some (extra, stream) => some (kind.bases.getD code 0 + extra, stream)
  | none => none

/-- Finds the automaton of a kind: the usual one, one with a single symbol, one
described in the block, or the one used before.  The result holds the place
after what was read. -/
def table? (kind : FieldKind) (mode : Nat) (before : Option Fse.Table)
    (block : Array UInt8) (start : Nat) : Option (Fse.Table × Nat) :=
  match mode with
  | 0 => some (kind.usual, start)
  | 1 =>
    let symbol := (block.getD start 0).toNat
    if block.size ≤ start ∨ kind.symbols ≤ symbol then none
    else some (Fse.Table.single symbol, start + 1)
  | 2 =>
    match Fse.Distribution.read? (block.extract start block.size) kind.symbols
      kind.maxAccuracy with
    | some (distribution, size) =>
      some (Fse.Table.ofDistribution distribution, start + size)
    | none => none
  | _ => before.map fun table => (table, start)

end FieldKind

/-- The automata of a block, which later blocks may take over. -/
structure SequenceTables where
  literalLength : Fse.Table
  offset : Fse.Table
  matchLength : Fse.Table

/-- The last three offsets, the latest first. -/
structure RecentOffsets where
  first : Nat
  second : Nat
  third : Nat

namespace RecentOffsets

def initial : RecentOffsets := ⟨1, 4, 8⟩

/-- The offset that a value stands for, and the last offsets after it.  Without
literals in front the latest offset is of no use, so the small values stand for
the other two and for one less than the latest. -/
def resolve (recent : RecentOffsets) (value literals : Nat) :
    Nat × RecentOffsets :=
  if 3 < value then (value - 3, ⟨value - 3, recent.first, recent.second⟩)
  else
    match (if literals = 0 then value + 1 else value) with
    | 1 => (recent.first, recent)
    | 2 => (recent.second, ⟨recent.second, recent.first, recent.third⟩)
    | 3 => (recent.third, ⟨recent.third, recent.first, recent.second⟩)
    | _ => (recent.first - 1, ⟨recent.first - 1, recent.first, recent.second⟩)

end RecentOffsets

/-- What the sequences of a block work on: the content of the frame so far, the
literals, how many of these are used up, and the last offsets. -/
structure Assembly where
  output : Array UInt8
  literals : Array UInt8
  used : Nat
  recent : RecentOffsets

namespace Assembly

def insert? (assembly : Assembly) (count : Nat) : Option Assembly :=
  let ⟨output, literals, used, recent⟩ := assembly
  if literals.size < used + count then none
  else
    some ⟨output ++ literals.extract used (used + count), literals,
      used + count, recent⟩

def repeatBytes (offset : Nat) : Nat → Array UInt8 → Array UInt8
  | 0, output => output
  | count + 1, output =>
    repeatBytes offset count
      (output.push (output.getD (output.size - offset) 0))

def carryOut? (assembly : Assembly) (literals value length : Nat) :
    Option Assembly :=
  let (offset, recent) := assembly.recent.resolve value literals
  match assembly.insert? literals with
  | none => none
  | some ⟨output, content, used, _⟩ =>
    if offset = 0 ∨ output.size < offset then none
    else some ⟨repeatBytes offset length output, content, used, recent⟩

end Assembly

/-- The states of the three automata. -/
structure SequenceStates where
  literalLength : Fse.State
  offset : Fse.State
  matchLength : Fse.State

namespace SequenceTables

/-- Carries out the given count of sequences; the stream has to end with the
last of them.  The output may not grow beyond the limit. -/
def decode (tables : SequenceTables) (limit : Nat) :
    Nat → SequenceStates → BitStream → Assembly → Option Assembly
  | 0, _, stream, assembly =>
    if stream.remaining = 0 then some assembly else none
  | count + 1, states, stream, assembly => do
    let (offset, stream) ← FieldKind.offset.value? states.offset.symbol stream
    let (length, stream) ←
      FieldKind.matchLength.value? states.matchLength.symbol stream
    let (literals, stream) ←
      FieldKind.literalLength.value? states.literalLength.symbol stream
    if limit < assembly.output.size + literals + length then none
    else
      let assembly ← assembly.carryOut? literals offset length
      if count = 0 then tables.decode limit count states stream assembly
      else
        let (literalLength, stream) ←
          tables.literalLength.next? states.literalLength stream
        let (matchLength, stream) ←
          tables.matchLength.next? states.matchLength stream
        let (offset, stream) ← tables.offset.next? states.offset stream
        tables.decode limit count ⟨literalLength, offset, matchLength⟩ stream
          assembly

/-- The count of sequences at the start of their section, and the size of what
it is written in. -/
def countHeader? (section_ : Array UInt8) : Option (Nat × Nat) :=
  let first := bytesAt section_ 0 1
  if section_.size = 0 then none
  else if first < 128 then some (first, 1)
  else if first < 255 then
    if section_.size < 2 then none
    else some ((first - 128) * 256 + bytesAt section_ 1 1, 2)
  else if section_.size < 3 then none
  else some (bytesAt section_ 1 2 + 0x7F00, 3)

/-- Carries out the sequences of a section.  The result holds the automata that
later blocks may take over. -/
def run? (before : Option SequenceTables) (section_ : Array UInt8) (limit : Nat)
    (assembly : Assembly) : Option (Assembly × Option SequenceTables) := do
  let (count, start) ← countHeader? section_
  if count = 0 then
    if section_.size = start then some (assembly, before) else none
  else if section_.size ≤ start then none
  else
    let modes := bytesAt section_ start 1
    if modes % 4 ≠ 0 then none
    else
      let (literalLength, next) ← FieldKind.literalLength.table? (modes / 64)
        (before.map SequenceTables.literalLength) section_ (start + 1)
      let (offset, next) ← FieldKind.offset.table? (modes / 16 % 4)
        (before.map SequenceTables.offset) section_ next
      let (matchLength, next) ← FieldKind.matchLength.table? (modes / 4 % 4)
        (before.map SequenceTables.matchLength) section_ next
      let tables : SequenceTables := ⟨literalLength, offset, matchLength⟩
      let stream ← BitStream.ofBytes? (section_.extract next section_.size)
      let (literalState, stream) ← literalLength.start? stream
      let (offsetState, stream) ← offset.start? stream
      let (matchState, stream) ← matchLength.start? stream
      let assembly ← tables.decode limit count
        ⟨literalState, offsetState, matchState⟩ stream assembly
      some (assembly, some tables)

end SequenceTables

end SlotStorage.Zstd
