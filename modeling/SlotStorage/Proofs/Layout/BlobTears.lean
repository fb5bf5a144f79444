import SlotStorage.Proofs.Layout.Blob

/-!
# Torn blobs

The head of a long byte string announces its length before the data cells are
written, and still does so while they are emptied.  A writing that breaks off
therefore leaves no blob that cannot be read, but one whose bytes are zero
from the boundary of some cell on.
-/

namespace SlotStorage

namespace Bytes

/-- Zeros in place of all bytes after the first ones. -/
def blankFrom (kept : Nat) (bytes : Bytes) : Bytes :=
  bytes.take kept ++ List.replicate (bytes.length - kept) 0

variable {kept : Nat} {bytes : Bytes}

@[simp] theorem length_blankFrom (kept : Nat) (bytes : Bytes) :
    (bytes.blankFrom kept).length = bytes.length := by
  rw [blankFrom, List.length_append, List.length_take, List.length_replicate]
  omega

theorem blankFrom_zero (bytes : Bytes) :
    bytes.blankFrom 0 = List.replicate bytes.length 0 :=
  rfl

theorem blankFrom_of_le (whole : bytes.length ≤ kept) :
    bytes.blankFrom kept = bytes := by
  rw [blankFrom, List.take_of_length_le whole, Nat.sub_eq_zero_of_le whole,
    List.replicate_zero, List.append_nil]

theorem blankFrom_cons (byte : UInt8) (kept : Nat) (bytes : Bytes) :
    blankFrom (kept + 1) (byte :: bytes) = byte :: bytes.blankFrom kept := by
  simp only [blankFrom, List.take_succ_cons, List.length_cons,
    Nat.add_sub_add_right, List.cons_append]

theorem blankFrom_append (kept : Nat) (front back : Bytes) :
    (front ++ back).blankFrom kept =
      front.blankFrom kept ++ back.blankFrom (kept - front.length) := by
  by_cases within : kept ≤ front.length
  · have none : kept - front.length = 0 := Nat.sub_eq_zero_of_le within
    rw [none, blankFrom_zero, blankFrom, List.take_append_of_le_length within,
      blankFrom, List.append_assoc, List.replicate_append_replicate,
      List.length_append, Nat.sub_add_comm within]
  · have all : front.length ≤ kept := by omega
    rw [blankFrom_of_le all, blankFrom, blankFrom, List.take_append,
      List.take_of_length_le all, List.append_assoc, List.length_append,
      show front.length + back.length - kept =
        back.length - (kept - front.length) by omega]

theorem blankFrom_zeros (kept count : Nat) :
    blankFrom kept (List.replicate count 0) = List.replicate count 0 := by
  rw [blankFrom, List.take_replicate, List.length_replicate,
    List.replicate_append_replicate]
  congr 1
  omega

theorem take_blankFrom {count : Nat} (within : count ≤ kept) :
    (bytes.blankFrom kept).take count = bytes.take count := by
  by_cases whole : bytes.length ≤ kept
  · rw [blankFrom_of_le whole]
  · rw [blankFrom, List.take_append_of_le_length, List.take_take,
      Nat.min_eq_left within]
    rw [List.length_take]
    omega

theorem drop_blankFrom {count : Nat} (within : count ≤ kept) :
    (bytes.blankFrom kept).drop count =
      blankFrom (kept - count) (bytes.drop count) := by
  by_cases whole : bytes.length ≤ kept
  · rw [blankFrom_of_le whole, blankFrom_of_le]
    rw [List.length_drop]
    omega
  · rw [blankFrom, List.drop_append_of_le_length, List.drop_take, blankFrom,
      List.length_drop, Nat.sub_sub_sub_cancel_right within]
    rw [List.length_take]
    omega

end Bytes

theorem Word.leftAligned_zeros {count : Nat} (within : count ≤ 32) :
    leftAligned (List.replicate count 0) = 0 := by
  rw [leftAligned, List.length_replicate,
    List.replicate_append_replicate, Nat.add_sub_cancel' within]
  decide

namespace Blob

variable {blob : Blob} {capacity kept : Nat} {bytes : Bytes}
  {contents after : Contents}

theorem dataWords_zeros (count length : Nat) :
    dataWords count (List.replicate length 0) = List.replicate count 0 := by
  induction count generalizing length with
  | zero => rfl
  | succ count induction =>
      rw [dataWords, List.take_replicate, List.drop_replicate, induction,
        Word.leftAligned_zeros (Nat.min_le_left _ _), List.replicate_succ]

/-- Zeros from the boundary of a cell on are empty cells. -/
theorem getD_dataWords_blankFrom (count kept index : Nat) (bytes : Bytes) :
    (dataWords count (bytes.blankFrom (32 * kept))).getD index 0 =
      if index < kept then (dataWords count bytes).getD index 0 else 0 := by
  induction count generalizing kept index bytes with
  | zero => simp only [dataWords, List.getD_nil, ite_self]
  | succ count induction =>
      cases kept with
      | zero =>
          rw [Nat.mul_zero, Bytes.blankFrom_zero, dataWords_zeros,
            if_neg (Nat.not_lt_zero index), List.getD_eq_getElem?_getD,
            List.getElem?_getD_replicate_default_eq]
      | succ kept =>
          have first : 32 ≤ 32 * (kept + 1) := by omega
          have others : 32 * (kept + 1) - 32 = 32 * kept := by omega
          rw [dataWords, Bytes.take_blankFrom first,
            Bytes.drop_blankFrom first, others, dataWords]
          cases index with
          | zero => rw [if_pos (Nat.succ_pos kept)]; rfl
          | succ index =>
              rw [List.getD_cons_succ, List.getD_cons_succ, induction]
              simp only [Nat.add_lt_add_iff_right]

/-- The cells of a byte string, empty after the first data cells, hold the
byte string with zeros after the first bytes. -/
theorem Holdable.exists_holds_blankFrom (holdable : Holdable capacity bytes)
    (cells : ∀ offset < capacity, contents (blob.cell offset) =
      if offset ≤ kept then (encode bytes).getD offset 0 else 0) :
    ∃ count, blob.Holds capacity (bytes.blankFrom (32 * count)) contents := by
  by_cases short : bytes.length ≤ maxShort
  · have whole : bytes.length ≤ 32 * 1 := Nat.le_succ_of_le short
    refine ⟨1, ?_⟩
    rw [Bytes.blankFrom_of_le whole]
    refine ⟨holdable, ?_⟩
    intro offset within
    rw [cells offset within, encode_short short]
    cases offset with
    | zero => exact if_pos (Nat.zero_le kept)
    | succ offset => exact ite_self 0
  · refine ⟨kept, ⟨?_, ?_⟩, ?_⟩
    · rw [Bytes.length_blankFrom]
      exact holdable.small
    · rw [Bytes.length_blankFrom]
      exact holdable.room
    · intro offset within
      rw [cells offset within, encode_long short, encode_long (by
        rwa [Bytes.length_blankFrom]), Bytes.length_blankFrom]
      cases offset with
      | zero => exact if_pos (Nat.zero_le kept)
      | succ offset =>
          rw [List.getD_cons_succ, List.getD_cons_succ,
            getD_dataWords_blankFrom]
          rfl

/-- What may be there of two byte strings when the one is being replaced by
the other. -/
inductive Remnant (old new : Bytes) : Bytes → Prop where
  | nothing : Remnant old new []
  | ofOld (cells : Nat) : Remnant old new (old.blankFrom (32 * cells))
  | ofNew (cells : Nat) : Remnant old new (new.blankFrom (32 * cells))

/-- Only the blob has changed, and it holds a remnant. -/
structure Tears (blob : Blob) (capacity : Nat) (old new : Bytes)
    (before after : Contents) : Prop where
  same : before.SameOff (blob.area capacity) after
  remnant : ∃ found, Remnant old new found ∧ blob.Holds capacity found after

section Replacing

variable {old new : Bytes} (holds : blob.Holds capacity old contents)
  (fits : blob.Fits capacity)

include holds fits

theorem Holds.erased_tears {left : Nat}
    (erased : blob.Erased (Head.ofLength old.length).dataSlots left contents
      after) :
    blob.Tears capacity old new contents after := by
  have slots := dataSlots_ofLength old.length
  have room := holds.room
  have cells : ∀ offset < capacity, after (blob.cell offset) =
      if offset ≤ left then (encode old).getD offset 0 else 0 := by
    intro offset within
    by_cases announced : offset ≤ (Head.ofLength old.length).dataSlots
    · rw [erased.cells offset announced, holds.cells offset within]
      by_cases gone : left < offset
      · rw [if_pos gone, if_neg (Nat.not_le_of_lt gone)]
      · rw [if_neg gone, if_pos (Nat.le_of_not_lt gone)]
    · rw [erased.same _ (fits.cell_not_mem_area within (by omega)),
        holds.cells offset within, List.getD_eq_default, ite_self]
      rw [length_encode]
      omega
  obtain ⟨count, torn⟩ := holds.toHoldable.exists_holds_blankFrom cells
  exact ⟨erased.same.mono (area_mono (by omega)), _, .ofOld count, torn⟩

theorem Holds.written_tears {between : Contents} {count : Nat}
    (holdable : Holdable capacity new)
    (emptied : blob.Emptied (Head.ofLength old.length).dataSlots contents
      between)
    (written : blob.Written (encode new) count between after) :
    blob.Tears capacity old new contents after := by
  obtain ⟨same, empty⟩ := holds.emptied fits emptied
  have room := holdable.room
  have positive := slotCount_pos new.length
  have length := length_encode new
  have cells : ∀ offset < capacity, after (blob.cell offset) =
      if offset < count then (encode new).getD offset 0 else 0 := by
    intro offset within
    by_cases own : offset < (encode new).length
    · rw [written.cells offset own, List.getD_eq_getElem _ _ own,
        empty offset within]
    · rw [written.same _ (fits.cell_not_mem_area within (by omega)),
        empty offset within, List.getD_eq_default _ _ (by omega), ite_self]
  refine ⟨same.trans (written.same.mono (area_mono (by omega))), ?_⟩
  cases count with
  | zero =>
      refine ⟨[], .nothing, .of_empty (by omega) ?_⟩
      rintro cell ⟨offset, within, rfl⟩
      exact cells offset within
  | succ count =>
      simp only [Nat.lt_succ_iff] at cells
      obtain ⟨kept, torn⟩ := holdable.exists_holds_blankFrom cells
      exact ⟨_, .ofNew kept, torn⟩

/-- Whichever calls fail while a byte string is replaced, the blob holds what
is left of the old one or there already of the new one. -/
theorem Holds.safe_set_tears {causes : StoreError → Prop}
    (holdable : Holdable capacity new) :
    Layout.Safe causes (blob.Tears capacity old new contents)
      (blob.set new) contents (fun _ _ => True) := by
  have room := holdable.room
  have positive := slotCount_pos new.length
  apply (safe_set (holds.decode?_headCell fits)
    (fun left between erased => holds.erased_tears fits erased) _
    (fits _ (by omega))
    (fun between count after emptied written =>
      holds.written_tears fits holdable emptied written)).mono
  · exact fun _ _ _ _ => trivial
  · intro between emptied
    exact holds.written_tears fits holdable emptied
      (Written.refl blob (encode new) between)

end Replacing

end Blob

end SlotStorage
