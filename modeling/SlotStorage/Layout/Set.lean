import SlotStorage.Hash.Domain
import SlotStorage.Layout.Array
import SlotStorage.Layout.Index

/-!
# Enumerable sets

The members of a set form an array at the set key, and an index holds for each
member its position in the array, counted from one.  A member leaves by letting
the last one take its place.
-/

namespace SlotStorage

/-- A set of words under a set key. -/
structure EnumerableSet where
  members : DynamicArray
  positions : SaltedIndex

namespace EnumerableSet

def ofKey (hasher : Hasher) (space : Namespace) (setKey : Slot) :
    EnumerableSet where
  members := ⟨space, setKey⟩
  positions := ⟨space, Domain.setPositions hasher setKey⟩

def setKey (set : EnumerableSet) : Slot :=
  set.members.base

def contains (set : EnumerableSet) (value : Word) : Layout Bool := do
  let position ← set.positions.get value
  return position ≠ 0

/-- Adds a member; the answer says whether it was new.  The member enters the
array before its position is written. -/
def add (set : EnumerableSet) (value : Word) : Layout Bool := do
  if ← set.contains value then
    return false
  else
    set.members.append value
    let position ← set.members.size
    let _ ← set.positions.set value (Word.ofCount position)
    return true

def indexOf (set : EnumerableSet) (value position : Word) : Layout Nat := do
  let count ← Layout.require (.corruptLength (set.positions.slotFor value))
    position.toCount?
  Layout.difference count 1

/-- Removes a member; the answer says whether it was there.  Its position goes
first, then the last member takes its place, and then the array is
shortened. -/
def remove (set : EnumerableSet) (value : Word) : Layout Bool := do
  let position ← set.positions.get value
  if position = 0 then
    return false
  else
    let index ← set.indexOf value position
    let size ← set.members.size
    if size = 0 then
      throw .emptyArray
    else
      let lastIndex ← Layout.difference size 1
      let last ← set.members.get lastIndex
      let _ ← set.positions.set value 0
      if index ≠ lastIndex then
        set.members.set index last
        let _ ← set.positions.set last (Word.ofCount (← Layout.sum index 1))
      let _ ← set.members.removeLast
      return true

def size (set : EnumerableSet) : Layout Nat :=
  set.members.size

def isEmpty (set : EnumerableSet) : Layout Bool :=
  set.members.isEmpty

def cursor (set : EnumerableSet) : Cursor :=
  set.members.cursor

def toList (set : EnumerableSet) : Layout (List Word) :=
  set.members.toList

/-- Removes all members: first every position, then the array. -/
def clear (set : EnumerableSet) : Layout Unit := do
  let _ ← set.cursor.forEach fun member => set.positions.set member 0
  set.members.clear

def describe (set : EnumerableSet) : String :=
  "EnumerableSet \x7b namespace: " ++ set.members.space.describe
    ++ ", set_key: " ++ set.setKey.describe ++ " \x7d"

end EnumerableSet

end SlotStorage
