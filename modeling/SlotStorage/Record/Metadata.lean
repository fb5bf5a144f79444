import SlotStorage.Word

/-!
# Entity metadata

What is recorded about an entity: the block at which it expires, its owner, and
annotations that keep their order and may repeat a key.
-/

namespace SlotStorage

/-- A key with a value. -/
structure Keyed (α : Type) where
  key : String
  value : α
  deriving DecidableEq

/-- The record of an entity. -/
structure Metadata where
  expiresAt : UInt64
  stringAnnotations : List (Keyed String)
  numericAnnotations : List (Keyed UInt64)
  owner : Octets 20
  deriving DecidableEq

namespace Metadata

def isExpiredAt (metadata : Metadata) (block : UInt64) : Bool :=
  metadata.expiresAt ≤ block

/-- The count of blocks until an entity expires: zero once it has. -/
def blocksToLive (metadata : Metadata) (block : UInt64) : Nat :=
  metadata.expiresAt.toNat - block.toNat

def lookup {α : Type} (key : String) (annotations : List (Keyed α)) :
    Option α :=
  (annotations.find? fun entry => entry.key = key).map Keyed.value

def stringValue? (metadata : Metadata) (key : String) : Option String :=
  lookup key metadata.stringAnnotations

def numericValue? (metadata : Metadata) (key : String) : Option UInt64 :=
  lookup key metadata.numericAnnotations

end Metadata

end SlotStorage
