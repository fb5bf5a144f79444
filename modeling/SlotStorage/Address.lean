import SlotStorage.Word

/-!
# Addresses

A cell of storage is named by a namespace and a slot.  A slot is a 256-bit
integer, so that related cells can lie at consecutive addresses; stepping past
the last address gives nothing rather than wrapping around.
-/

namespace SlotStorage

/-- The address of a cell within a namespace. -/
structure Slot where
  word : Word
  deriving DecidableEq, Inhabited

namespace Slot

def toNat (slot : Slot) : Nat :=
  slot.word.toNat

/-- The slot with the given integer form, if the integer has at most 256
bits. -/
def ofNat? (value : Nat) : Option Slot :=
  if value < Word.bound then some ⟨BitVec.ofNat 256 value⟩ else none

def ofUInt64 (number : UInt64) : Slot :=
  ⟨Word.ofUInt64 number⟩

def toBytes (slot : Slot) : Bytes :=
  Octets.toBytes slot.word

/-- The address `offset` cells after this one, unless it lies beyond the last
address. -/
def add? (slot : Slot) (offset : Nat) : Option Slot :=
  ofNat? (slot.toNat + offset)

/-- The address that lies a 64-bit count of cells after this one. -/
def offset? (slot : Slot) (count : UInt64) : Option Slot :=
  slot.add? count.toNat

def next? (slot : Slot) : Option Slot :=
  slot.add? 1

def compare (left right : Slot) : Ordering :=
  Bytes.compare left.toBytes right.toBytes

def toHex (slot : Slot) : String :=
  Octets.toHex slot.word

def shortHex (slot : Slot) : String :=
  String.ofList (Hex.encode (slot.toBytes.take 4))

def display (slot : Slot) : String :=
  Octets.display slot.word

def describe (slot : Slot) : String :=
  "Slot(" ++ slot.shortHex ++ ")"

def parse (text : String) : Except HexTextError Slot :=
  (Octets.parse 32 text).map Slot.mk

end Slot

/-- The identifier of the processor that owns a partition of the slots.  The
same slot in two namespaces names two independent cells. -/
structure Namespace where
  address : Octets 20
  deriving DecidableEq, Inhabited

namespace Namespace

def storageProcessor : Namespace := ⟨0x60138453#160⟩

def registryProcessor : Namespace := ⟨0x60138454#160⟩

def toHex (space : Namespace) : String :=
  Octets.toHex space.address

def display (space : Namespace) : String :=
  Octets.display space.address

def describe (space : Namespace) : String :=
  "Namespace(" ++ space.display ++ ")"

def parse (text : String) : Except HexTextError Namespace :=
  (Octets.parse 20 text).map Namespace.mk

end Namespace

/-- The key of an entity: 32 bytes that are never interpreted. -/
structure EntityKey where
  word : Word
  deriving DecidableEq, Inhabited

namespace EntityKey

def toBytes (key : EntityKey) : Bytes :=
  Octets.toBytes key.word

def toHex (key : EntityKey) : String :=
  Octets.toHex key.word

def display (key : EntityKey) : String :=
  Octets.display key.word

def describe (key : EntityKey) : String :=
  "EntityKey(" ++ String.ofList (Hex.encode (key.toBytes.take 4)) ++ ")"

def parse (text : String) : Except HexTextError EntityKey :=
  (Octets.parse 32 text).map EntityKey.mk

end EntityKey

/-- A cell of storage: a slot within a namespace. -/
structure Cell where
  space : Namespace
  slot : Slot
  deriving DecidableEq, Inhabited

namespace Cell

/-- The place of a cell in the order by namespace and then by slot. -/
def rank (cell : Cell) : Nat :=
  cell.space.address.toNat * Word.bound + cell.slot.toNat

theorem rank_injective {left right : Cell} (same : left.rank = right.rank) :
    left = right := by
  obtain ⟨⟨leftAddress⟩, ⟨leftWord⟩⟩ := left
  obtain ⟨⟨rightAddress⟩, ⟨rightWord⟩⟩ := right
  have leftSmall : leftWord.toNat < 2 ^ 256 := leftWord.isLt
  have rightSmall : rightWord.toNat < 2 ^ 256 := rightWord.isLt
  simp only [rank, Slot.toNat, Word.bound] at same
  have addresses : leftAddress.toNat = rightAddress.toNat := by omega
  have words : leftWord.toNat = rightWord.toNat := by omega
  rw [BitVec.eq_of_toNat_eq addresses, BitVec.eq_of_toNat_eq words]

end Cell

end SlotStorage
