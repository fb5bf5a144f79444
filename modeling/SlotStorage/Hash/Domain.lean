import SlotStorage.Hash.Hasher

/-!
# Derived addresses

Every kind of derived slot has a salt of its own.  A salt is joined to a key
without a separator; what keeps the kinds apart is that no salted byte string
of one kind is one of another.
-/

namespace SlotStorage.Domain

def setSalt : Bytes := Utf8.ofString "strataKeyset"

def entitySalt : Bytes := Utf8.ofString "strataEntity"

def registryLabel : Bytes := Utf8.ofString "strataAllEntities"

/-- The salt of the sets of entities that expire at one block. -/
def expirySalt : Bytes := Utf8.ofString "strataExpiresAtBlock"

def setPositions (hasher : Hasher) (setKey : Slot) : SaltedHasher :=
  (SaltedHasher.mk hasher setSalt).withSuffix setKey.toBytes

def entityRecords (hasher : Hasher) : SaltedHasher :=
  ⟨hasher, entitySalt⟩

def registryKey (hasher : Hasher) : Slot :=
  ⟨hasher.digest registryLabel⟩

/-- The key of the set of the entities that expire at a block. -/
def expiryKey (hasher : Hasher) (block : UInt64) : Slot :=
  ⟨hasher.digest (expirySalt ++ Bytes.bigEndian 8 block.toNat)⟩

end SlotStorage.Domain
