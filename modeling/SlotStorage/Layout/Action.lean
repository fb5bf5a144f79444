import SlotStorage.Store.Program

/-!
# Actions of layouts

An operation of a layout reads and writes cells and may fail for a cause of the
layout or of the store.  Every step of arithmetic on counts that could leave
its range, and every cut of a byte string, asks first.
-/

namespace SlotStorage

/-- Why an operation of a layout failed.  The cause `outOfRange` is never told
to a caller: it stands for the overflow at which a run stops altogether.  Only
one step can come to it, an append to an array or a set whose stored length is
the largest count, `2 ^ 64 - 1`. -/
inductive LayoutError where
  | indexOutOfRange (index size : Nat)
  | emptyArray
  | corruptLength (slot : Slot)
  | slotOverflow (base : Slot)
  | outOfRange
  | store (cause : StoreError)
  deriving DecidableEq

def LayoutError.message : LayoutError → String
  | .indexOutOfRange index size =>
    "index " ++ toString index ++ " out of range for array of size "
      ++ toString size
  | .emptyArray => "array is empty"
  | .corruptLength slot => "corrupt length word at " ++ slot.display
  | .slotOverflow base => "slot address overflow from base " ++ base.display
  | .outOfRange => "count out of range"
  | .store cause => "store error: " ++ cause.message

/-- An operation of a layout. -/
abbrev Layout (α : Type) := Action LayoutError α

namespace Layout

def read (cell : Cell) : Layout Word :=
  ExceptT.mk (.read cell fun answer => .done (answer.mapError .store))

/-- Writes a cell; the answer is the word that it held before. -/
def write (cell : Cell) (value : Word) : Layout Word :=
  ExceptT.mk (.write cell value fun answer => .done (answer.mapError .store))

/-- Goes on with a value that may be missing, for the given cause. -/
def require {α : Type} (error : LayoutError) : Option α → Layout α
  | some value => pure value
  | none => throw error

/-- The sum of two counts that has to fit in 64 bits; a run stops if it does
not. -/
def sum (left right : Nat) : Layout Nat :=
  if left + right < Word.countBound then pure (left + right)
  else throw .outOfRange

/-- The difference of two counts, the first of which has to be the larger. -/
def difference (left right : Nat) : Layout Nat :=
  if right ≤ left then pure (left - right) else throw .outOfRange

/-- The first bytes of a byte string that has to be long enough. -/
def firstBytes (count : Nat) (bytes : Bytes) : Layout Bytes :=
  if count ≤ bytes.length then pure (bytes.take count) else throw .outOfRange

end Layout

end SlotStorage
