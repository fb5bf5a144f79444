import SlotStorage.Layout.Set

/-!
# The entity registry

The set of the keys of all entities, under a set key that only depends on the
hash algorithm.
-/

namespace SlotStorage

def EntityKey.ofWords (words : List Word) : List EntityKey :=
  words.map EntityKey.mk

/-- The set of all entities. -/
structure Registry where
  keys : EnumerableSet

namespace Registry

def ofSpace (hasher : Hasher) (space : Namespace) : Registry :=
  ⟨EnumerableSet.ofKey hasher space (Domain.registryKey hasher)⟩

def setKey (registry : Registry) : Slot :=
  registry.keys.setKey

/-- Adds an entity; the answer says whether it was new. -/
def register (registry : Registry) (key : EntityKey) : Layout Bool :=
  registry.keys.add key.word

/-- Removes an entity; the answer says whether it was there. -/
def unregister (registry : Registry) (key : EntityKey) : Layout Bool :=
  registry.keys.remove key.word

def contains (registry : Registry) (key : EntityKey) : Layout Bool :=
  registry.keys.contains key.word

def size (registry : Registry) : Layout Nat :=
  registry.keys.size

def isEmpty (registry : Registry) : Layout Bool :=
  registry.keys.isEmpty

def entities (registry : Registry) : Layout (List EntityKey) := do
  return EntityKey.ofWords (← registry.keys.toList)

def cursor (registry : Registry) : Cursor :=
  registry.keys.cursor

def describe (registry : Registry) : String :=
  "GlobalRegistry \x7b set_key: " ++ registry.setKey.describe ++ " \x7d"

end Registry

end SlotStorage
