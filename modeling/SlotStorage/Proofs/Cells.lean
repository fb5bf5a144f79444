import Mathlib.Data.Set.Insert
import SlotStorage.Address
import SlotStorage.Proofs.Words

/-!
# Rows of cells

Arrays and blobs lie in consecutive cells.  A row is named by its first cell
and its length; as long as it ends before the last slot, its cells are
pairwise different and every checked step along it succeeds.
-/

namespace SlotStorage

namespace Slot

/-- The slot at a distance is still a slot. -/
def Reaches (slot : Slot) (offset : Nat) : Prop :=
  slot.toNat + offset < Word.bound

instance (slot : Slot) (offset : Nat) : Decidable (slot.Reaches offset) :=
  inferInstanceAs (Decidable (_ < _))

theorem Reaches.mono {slot : Slot} {offset limit : Nat}
    (reaches : slot.Reaches limit) (within : offset ≤ limit) :
    slot.Reaches offset := by
  unfold Reaches at reaches ⊢
  omega

theorem add?_of_reaches {slot : Slot} {offset : Nat}
    (reaches : slot.Reaches offset) :
    slot.add? offset = some ⟨BitVec.ofNat 256 (slot.toNat + offset)⟩ := by
  have inside : slot.toNat + offset < Word.bound := reaches
  rw [add?, ofNat?, if_pos inside]

theorem add?_of_not_reaches {slot : Slot} {offset : Nat}
    (beyond : ¬ slot.Reaches offset) : slot.add? offset = none :=
  if_neg beyond

theorem isSome_add?_iff {slot : Slot} {offset : Nat} :
    (slot.add? offset).isSome ↔ slot.Reaches offset := by
  by_cases reaches : slot.Reaches offset
  · simp [add?_of_reaches reaches, reaches]
  · simp [add?_of_not_reaches reaches, reaches]

end Slot

namespace Cell

/-- The cell at a distance in the same namespace, around the end of the
slots. -/
def shift (cell : Cell) (offset : Nat) : Cell :=
  ⟨cell.space, ⟨BitVec.ofNat 256 (cell.slot.toNat + offset)⟩⟩

@[simp] theorem shift_zero (cell : Cell) : cell.shift 0 = cell := by
  obtain ⟨space, ⟨word⟩⟩ := cell
  simp only [shift, Slot.toNat, Nat.add_zero]
  rw [BitVec.ofNat_toNat, BitVec.setWidth_eq]

theorem shift_injective {cell : Cell} {left right : Nat}
    (leftReaches : cell.slot.Reaches left)
    (rightReaches : cell.slot.Reaches right)
    (equality : cell.shift left = cell.shift right) : left = right := by
  have words : (BitVec.ofNat (8 * 32) (cell.slot.toNat + left) : Word) =
      BitVec.ofNat (8 * 32) (cell.slot.toNat + right) :=
    congrArg (fun other => other.slot.word) equality
  have sums := congrArg BitVec.toNat words
  rw [Word.toNat_ofNat leftReaches, Word.toNat_ofNat rightReaches] at sums
  omega

theorem shift_ne {cell : Cell} {left right : Nat} (limit : Nat)
    (reaches : cell.slot.Reaches limit) (leftWithin : left ≤ limit)
    (rightWithin : right ≤ limit) (different : left ≠ right) :
    cell.shift left ≠ cell.shift right := by
  intro equality
  exact different (shift_injective (reaches.mono leftWithin)
    (reaches.mono rightWithin) equality)

/-- The cells of a row of the given length. -/
def row (cell : Cell) (count : Nat) : Set Cell :=
  {other | ∃ offset < count, other = cell.shift offset}

theorem shift_mem_row {cell : Cell} {offset count : Nat}
    (within : offset < count) : cell.shift offset ∈ cell.row count :=
  ⟨offset, within, rfl⟩

theorem mem_row {cell : Cell} {count : Nat} (positive : 0 < count) :
    cell ∈ cell.row count :=
  ⟨0, positive, cell.shift_zero.symm⟩

theorem row_subset {cell : Cell} {count larger : Nat}
    (within : count ≤ larger) : cell.row count ⊆ cell.row larger := by
  rintro other ⟨offset, small, rfl⟩
  exact shift_mem_row (Nat.lt_of_lt_of_le small within)

/-- A cell farther along the row lies outside a shorter row. -/
theorem shift_not_mem_row {cell : Cell} {offset count : Nat}
    (reaches : cell.slot.Reaches offset) (later : count ≤ offset) :
    cell.shift offset ∉ cell.row count := by
  rintro ⟨other, small, shared⟩
  have same := shift_injective reaches (reaches.mono (by omega)) shared
  omega

end Cell

end SlotStorage
