import SlotStorage.Entity.Registry

/-!
# The expiry index

For every block there is a set of the entities that expire at it.  The set keys
are derived from the block numbers.
-/

namespace SlotStorage

/-- The sets of entities by the block at which they expire. -/
structure ExpiryIndex where
  space : Namespace
  hasher : Hasher

namespace ExpiryIndex

def atBlock (index : ExpiryIndex) (block : UInt64) : EnumerableSet :=
  EnumerableSet.ofKey index.hasher index.space
    (Domain.expiryKey index.hasher block)

/-- Adds an entity to a block; the answer says whether it was new. -/
def schedule (index : ExpiryIndex) (block : UInt64) (key : EntityKey) :
    Layout Bool :=
  (index.atBlock block).add key.word

/-- Removes an entity from a block; the answer says whether it was there. -/
def unschedule (index : ExpiryIndex) (block : UInt64) (key : EntityKey) :
    Layout Bool :=
  (index.atBlock block).remove key.word

def isScheduled (index : ExpiryIndex) (block : UInt64) (key : EntityKey) :
    Layout Bool :=
  (index.atBlock block).contains key.word

def dueAt (index : ExpiryIndex) (block : UInt64) : Layout (List EntityKey) := do
  return EntityKey.ofWords (← (index.atBlock block).toList)

/-- Empties the set of a block and gives back its entities. -/
def drain (index : ExpiryIndex) (block : UInt64) : Layout (List EntityKey) := do
  let due ← index.dueAt block
  (index.atBlock block).clear
  return due

/-- The index as text, over a store that is given as text. -/
def describe (index : ExpiryIndex) (store : String) : String :=
  "ExpiryIndex \x7b store: " ++ store ++ ", namespace: " ++ index.space.describe
    ++ ", algorithm: " ++ index.hasher.name ++ " \x7d"

end ExpiryIndex

end SlotStorage
