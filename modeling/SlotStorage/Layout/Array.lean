import SlotStorage.Layout.Action

/-!
# Dynamic arrays

The length of an array lies at its base slot and element `i` at the slot `i +
1` places after it.  Appending writes the element before the length and
removing writes the length before the element, so that a reader never sees an
element that was not written.
-/

namespace SlotStorage

/-- An array of words at a base slot of a namespace. -/
structure DynamicArray where
  space : Namespace
  base : Slot
  deriving DecidableEq

namespace DynamicArray

def lengthCell (array : DynamicArray) : Cell :=
  ⟨array.space, array.base⟩

/-- The cell of an element, unless its slot would lie beyond the last one. -/
def elementCell (array : DynamicArray) (index : Nat) : Layout Cell := do
  let slot ← Layout.require (.slotOverflow array.base)
    (array.base.add? (index + 1))
  return ⟨array.space, slot⟩

def size (array : DynamicArray) : Layout Nat := do
  let word ← Layout.read array.lengthCell
  Layout.require (.corruptLength array.base) word.toCount?

def isEmpty (array : DynamicArray) : Layout Bool := do
  return (← array.size) = 0

def writeSize (array : DynamicArray) (count : Nat) : Layout Unit := do
  let _ ← Layout.write array.lengthCell (Word.ofCount count)

/-- Refuses an index that is not below the count of elements. -/
def checkIndex (array : DynamicArray) (index : Nat) : Layout Unit := do
  let size ← array.size
  if index < size then pure () else throw (.indexOutOfRange index size)

def readElement (array : DynamicArray) (index : Nat) : Layout Word := do
  Layout.read (← array.elementCell index)

/-- Writes the cell of an element, whatever the length; the answer is the word
before. -/
def writeElement (array : DynamicArray) (index : Nat) (value : Word) :
    Layout Word := do
  Layout.write (← array.elementCell index) value

def get (array : DynamicArray) (index : Nat) : Layout Word := do
  array.checkIndex index
  array.readElement index

def last (array : DynamicArray) : Layout (Option Word) := do
  let size ← array.size
  if size = 0 then
    return none
  else
    return some (← array.readElement (← Layout.difference size 1))

def append (array : DynamicArray) (value : Word) : Layout Unit := do
  let size ← array.size
  let _ ← array.writeElement size value
  array.writeSize (← Layout.sum size 1)

def set (array : DynamicArray) (index : Nat) (value : Word) : Layout Unit := do
  array.checkIndex index
  let _ ← array.writeElement index value

def removeLast (array : DynamicArray) : Layout Word := do
  let size ← array.size
  if size = 0 then
    throw .emptyArray
  else
    let remaining ← Layout.difference size 1
    let cell ← array.elementCell remaining
    array.writeSize remaining
    Layout.write cell 0

def eraseFrom (array : DynamicArray) : Nat → Nat → Layout Unit
  | _, 0 => pure ()
  | index, count + 1 => do
    let _ ← array.writeElement index 0
    array.eraseFrom (index + 1) count

/-- Removes all elements: first their cells are emptied, then the length. -/
def clear (array : DynamicArray) : Layout Unit := do
  let size ← array.size
  array.eraseFrom 0 size
  array.writeSize 0

def describe (array : DynamicArray) : String :=
  "DynamicArray \x7b namespace: " ++ array.space.describe ++ ", base: "
    ++ array.base.describe ++ " \x7d"

end DynamicArray

/-- A place in an array from which elements are read one after the other.  The
length is read anew at every step, so a cursor follows the array as it grows
and shrinks. -/
structure Cursor where
  array : DynamicArray
  index : Nat := 0
  failed : Bool := false

namespace Cursor

/-- The element under the cursor and the index after it; nothing at the end of
the array. -/
def fetch (cursor : Cursor) : Layout (Option (Word × Nat)) := do
  let size ← cursor.array.size
  if size ≤ cursor.index then
    return none
  else
    let value ← cursor.array.readElement cursor.index
    return some (value, ← Layout.sum cursor.index 1)

/-- One step: an element, an error or the end, and the cursor afterwards.  The
end does not move the cursor; after an error it only ever reports the end. -/
def step (cursor : Cursor) :
    Program (Option (Except LayoutError Word) × Cursor) :=
  if cursor.failed then
    return (none, cursor)
  else do
    match ← cursor.fetch.run with
    | .ok none => return (none, cursor)
    | .ok (some (value, index)) =>
      return (some (.ok value), { cursor with index := index })
    | .error error =>
      return (some (.error error), { cursor with failed := true })

/-- Visits the elements from the cursor on, until the end or the first error,
in at most the given count of steps. -/
def visit {α : Type} (action : Word → Layout α) : Nat → Cursor → Layout (List α)
  | 0, _ => throw .outOfRange
  | steps + 1, cursor => do
    let (item, cursor) ← ExceptT.lift cursor.step
    match item with
    | none => return []
    | some (.error error) => throw error
    | some (.ok value) =>
      let result ← action value
      let results ← visit action steps cursor
      return result :: results

/-- Visits all elements from the cursor on.  An index is a count, so a cursor
reaches the end in fewer steps than there are counts. -/
def forEach {α : Type} (cursor : Cursor) (action : Word → Layout α) :
    Layout (List α) :=
  cursor.visit action Word.countBound

end Cursor

namespace DynamicArray

def cursor (array : DynamicArray) : Cursor :=
  { array := array }

def toList (array : DynamicArray) : Layout (List Word) :=
  array.cursor.forEach pure

end DynamicArray

end SlotStorage
