import SlotStorage.Layout.Action

/-!
# Blobs

A byte string in consecutive cells.  Up to 31 bytes lie in the head cell
itself, whose last byte is twice the length.  Of a longer one the head holds
twice the length plus one, and the bytes follow in words, the last of them
filled with zeros.  The parity of the head's last byte tells the two forms
apart.
-/

namespace SlotStorage

/-- The place of a byte string: its head cell. -/
structure Blob where
  space : Namespace
  key : Slot
  deriving DecidableEq

namespace Blob

def maxShort : Nat := 31

def maxLong : Nat := 9223372036854775775

/-- What a head announces. -/
inductive Head where
  | short (length : Nat)
  | long (length : Nat)
  deriving DecidableEq, Repr

/-- The count of cells after the head that a length needs in the long form. -/
def dataSlots (length : Nat) : Nat :=
  (length + 31) / 32

/-- The count of cells that a byte string of the given length takes up. -/
def slotCount (length : Nat) : Nat :=
  if length ≤ maxShort then 1 else 1 + dataSlots length

def Head.dataSlots : Head → Nat
  | .short _ => 0
  | .long length => Blob.dataSlots length

/-- Reads a head word at a slot.  A length is refused if it is too large for
its form or if its cells would lie beyond the last slot. -/
def Head.decode? (word : Word) (slot : Slot) : Option Head :=
  let last := word.toNat % 256
  if last % 2 = 0 then
    if last / 2 ≤ maxShort then some (.short (last / 2)) else none
  else
    let length := (word.toNat - 1) / 2
    if length ≤ maxLong ∧ (slot.add? (Blob.dataSlots length)).isSome then
      some (.long length)
    else none

/-- The words of a byte string in the long form, the head apart. -/
def dataWords : Nat → Bytes → List Word
  | 0, _ => []
  | count + 1, bytes =>
    Word.leftAligned (bytes.take 32) :: dataWords count (bytes.drop 32)

def encode (bytes : Bytes) : List Word :=
  if bytes.length ≤ maxShort then
    [Octets.ofBytes 32 (bytes ++ List.replicate (31 - bytes.length) 0
      ++ [UInt8.ofNat (bytes.length * 2)])]
  else
    Word.ofCount (bytes.length * 2 + 1)
      :: dataWords (dataSlots bytes.length) bytes

def headCell (blob : Blob) : Cell :=
  ⟨blob.space, blob.key⟩

/-- The cell at a distance from the head, unless it would lie beyond the last
slot. -/
def cellAt (blob : Blob) (offset : Nat) : Layout Cell := do
  let slot ← Layout.require (.slotOverflow blob.key) (blob.key.add? offset)
  return ⟨blob.space, slot⟩

def decodeHead (blob : Blob) (word : Word) : Layout Head :=
  Layout.require (.corruptLength blob.key) (Head.decode? word blob.key)

def writeFrom (blob : Blob) : Nat → List Word → Layout Unit
  | _, [] => pure ()
  | offset, word :: words => do
    let _ ← Layout.write (← blob.cellAt offset) word
    blob.writeFrom (offset + 1) words

/-- Empties the given count of cells after the head, the farthest first. -/
def eraseData (blob : Blob) : Nat → Layout Unit
  | 0 => pure ()
  | count + 1 => do
    let _ ← Layout.write (← blob.cellAt (count + 1)) 0
    blob.eraseData count

/-- Reads `length` bytes from the given count of cells, the first of them at a
distance. -/
def readFrom (blob : Blob) : Nat → Nat → Nat → Layout Bytes
  | 0, _, _ => pure []
  | count + 1, offset, length => do
    let word ← Layout.read (← blob.cellAt offset)
    let taken := min length 32
    let bytes ← Layout.firstBytes taken (Octets.toBytes word)
    let others ← blob.readFrom count (offset + 1)
      (← Layout.difference length taken)
    return bytes ++ others

/-- Removes the byte string: first the cells after the head, from the last on,
then the head. -/
def delete (blob : Blob) : Layout Unit := do
  let word ← Layout.read blob.headCell
  if word = 0 then
    return ()
  else
    let head ← blob.decodeHead word
    blob.eraseData head.dataSlots
    let _ ← Layout.write blob.headCell 0

/-- Replaces the byte string.  The old one is removed before the new one is
written. -/
def set (blob : Blob) (bytes : Bytes) : Layout Unit := do
  let words := encode bytes
  let _ ← blob.cellAt (← Layout.difference words.length 1)
  blob.delete
  blob.writeFrom 0 words

/-- The byte string; an empty head cell stands for the empty one. -/
def get (blob : Blob) : Layout Bytes := do
  let word ← Layout.read blob.headCell
  match ← blob.decodeHead word with
  | .short length => Layout.firstBytes length (Octets.toBytes word)
  | .long length => blob.readFrom (dataSlots length) 1 length

end Blob

end SlotStorage
