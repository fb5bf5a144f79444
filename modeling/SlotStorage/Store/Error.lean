import SlotStorage.Address

/-!
# Failures of a store

A store may fail to read or to write a cell, for a reason of its own.
-/

namespace SlotStorage

/-- Why a store call failed. -/
inductive StoreError where
  | readFailed (cell : Cell) (reason : String)
  | writeFailed (cell : Cell) (reason : String)
  | io (reason : String)
  | backend (reason : String)
  deriving DecidableEq

def StoreError.message : StoreError → String
  | .readFailed cell reason =>
    "read of " ++ cell.slot.display ++ " in " ++ cell.space.display
      ++ " failed: " ++ reason
  | .writeFailed cell reason =>
    "write of " ++ cell.slot.display ++ " in " ++ cell.space.display
      ++ " failed: " ++ reason
  | .io reason => "I/O error: " ++ reason
  | .backend reason => "backend error: " ++ reason

end SlotStorage
