import SlotStorage.Hash.Hasher
import SlotStorage.Layout.Action

/-!
# Salted hash indexes

A map from words to words that cannot be listed: the entry of a key lies at the
salted hash of the key's bytes.
-/

namespace SlotStorage

/-- The entries under one salt in a namespace. -/
structure SaltedIndex where
  space : Namespace
  hasher : SaltedHasher

namespace SaltedIndex

def slotFor (index : SaltedIndex) (key : Word) : Slot :=
  index.hasher.slot (Octets.toBytes key)

def cellFor (index : SaltedIndex) (key : Word) : Cell :=
  ⟨index.space, index.slotFor key⟩

/-- The entry of a key: zero if there is none. -/
def get (index : SaltedIndex) (key : Word) : Layout Word :=
  Layout.read (index.cellFor key)

/-- Writes the entry of a key; the answer is the entry before. -/
def set (index : SaltedIndex) (key value : Word) : Layout Word :=
  Layout.write (index.cellFor key) value

/-- The index as text: of the salt, only its length. -/
def describe (index : SaltedIndex) : String :=
  "SaltedHashIndex \x7b namespace: " ++ index.space.describe ++ ", salt_len: "
    ++ toString index.hasher.salt.length ++ " \x7d"

end SaltedIndex

end SlotStorage
