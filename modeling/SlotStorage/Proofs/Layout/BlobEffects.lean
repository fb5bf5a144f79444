import SlotStorage.Proofs.Layout.Blob

/-!
# What replacing a blob does

On any store, the effect of writing a byte string is decided by its length and
by the head word that lies there: it is refused without a change, or it
replaces exactly the cells of the old byte string.  Nothing is assumed about
what the cells hold.
-/

namespace SlotStorage

namespace Blob

variable {blob : Blob} {bytes : Bytes} {head : Head}
  {contents after : Contents}

/-- The cells hold the words of the byte string, the further data cells of the
old one are empty, and no other cell has changed. -/
structure Replaced (blob : Blob) (head : Head) (bytes : Bytes)
    (before after : Contents) : Prop where
  words : ∀ offset (within : offset < (encode bytes).length),
    after (blob.cell offset) = (encode bytes)[offset]
  erased : ∀ offset, (encode bytes).length ≤ offset →
    offset ≤ head.dataSlots → after (blob.cell offset) = 0
  others : before.SameOff
    (blob.area (max (encode bytes).length (head.dataSlots + 1))) after

theorem fits_encode (reaches : blob.key.Reaches (slotCount bytes.length - 1)) :
    blob.Fits (slotCount bytes.length) := by
  rw [← Nat.sub_add_cancel (slotCount_pos bytes.length)]
  exact .of_reaches reaches

theorem Replaced.holds (replaced : blob.Replaced head bytes contents after)
    (small : bytes.length ≤ maxLong) :
    blob.Holds (slotCount bytes.length) bytes after := by
  refine ⟨⟨small, Nat.le_refl _⟩, ?_⟩
  intro offset within
  rw [← length_encode] at within
  rw [replaced.words offset within, List.getD_eq_getElem _ _ within]

theorem set_runs
    (decoded : Head.decode? (contents blob.headCell) blob.key = some head)
    (reaches : blob.key.Reaches (slotCount bytes.length - 1)) :
    ∃ after, (blob.set bytes).Runs contents () after ∧
      blob.Replaced head bytes contents after := by
  have fits : blob.Fits (encode bytes).length := by
    rw [length_encode]
    exact fits_encode reaches
  have oldFits : blob.Fits (head.dataSlots + 1) :=
    .of_reaches (Head.reaches_of_decode decoded)
  have safe : Layout.Safe (fun _ => False) (fun _ => True) (blob.set bytes)
      contents _ :=
    safe_set decoded (fun _ _ _ => trivial) (fun _ _ => trivial) reaches
      (fun _ _ _ _ _ => trivial)
  obtain ⟨_, after, runs, between, emptied, written⟩ := safe.runs
  refine ⟨after, runs, ?_, ?_, ?_⟩
  · intro offset within
    rw [written.cells offset within, if_pos within]
  · intro offset later old
    rw [written.same _ (oldFits.cell_not_mem_area (by omega) later)]
    exact emptied.cells offset old
  · exact (emptied.same.mono (area_mono (Nat.le_max_right _ _))).trans
      (written.same.mono (area_mono (Nat.le_max_left _ _)))

/-- Beyond the last slot nothing is deleted or written. -/
theorem set_fails_beyond
    (beyond : ¬ blob.key.Reaches (slotCount bytes.length - 1))
    (contents : Contents) :
    (blob.set bytes).Fails contents (.slotOverflow blob.key) contents := by
  have positive := slotCount_pos bytes.length
  unfold Blob.set
  simp only [length_encode]
  rw [Layout.difference_eq positive, pure_bind, cellAt_of_not_reaches beyond]
  rfl

/-- A head that cannot be read is not deleted. -/
theorem delete_fails_corrupt
    (corrupt : Head.decode? (contents blob.headCell) blob.key = none) :
    blob.delete.Fails contents (.corruptLength blob.key) contents := by
  have nonzero : contents blob.headCell ≠ 0 := by
    intro absent
    rw [absent, Head.decode?_zero] at corrupt
    cases corrupt
  unfold delete
  apply (Layout.runs_read blob.headCell contents).bind_fails
  rw [if_neg nonzero, decodeHead, corrupt]
  rfl

/-- A head that cannot be read stays where it is. -/
theorem set_fails_corrupt
    (reaches : blob.key.Reaches (slotCount bytes.length - 1))
    (corrupt : Head.decode? (contents blob.headCell) blob.key = none) :
    (blob.set bytes).Fails contents (.corruptLength blob.key) contents := by
  have positive := slotCount_pos bytes.length
  have refuses := delete_fails_corrupt corrupt
  unfold Blob.set
  simp only [length_encode]
  rw [Layout.difference_eq positive, pure_bind,
    (fits_encode reaches).cellAt_eq (by omega), pure_bind]
  exact refuses.bind

/-- Writing a byte string that fits in a head, on any store: beyond the last
slot it is refused, over a head that cannot be read too, and otherwise it
replaces what was there.  It is then read back, and deleting it empties its
own cells. -/
theorem set_replaces (blob : Blob) (bytes : Bytes) (contents : Contents)
    (small : bytes.length ≤ maxLong) :
    (encode bytes).length = slotCount bytes.length ∧
    (¬ blob.key.Reaches (slotCount bytes.length - 1) →
      (blob.set bytes).Fails contents (.slotOverflow blob.key) contents) ∧
    (blob.key.Reaches (slotCount bytes.length - 1) →
      Head.decode? (contents blob.headCell) blob.key = none →
      (blob.set bytes).Fails contents (.corruptLength blob.key) contents) ∧
    (blob.key.Reaches (slotCount bytes.length - 1) →
      ∀ head, Head.decode? (contents blob.headCell) blob.key = some head →
      ∃ after, (blob.set bytes).Runs contents () after ∧
        blob.Replaced head bytes contents after ∧
        blob.get.Runs after bytes after ∧
        ∃ last, blob.delete.Runs after () last ∧
          (∀ offset < slotCount bytes.length,
            last (blob.cell offset) = 0) ∧
          after.SameOff (blob.area (slotCount bytes.length)) last ∧
          blob.get.Runs last [] last) := by
  refine ⟨length_encode bytes, fun beyond => set_fails_beyond beyond contents,
    set_fails_corrupt, ?_⟩
  intro reaches head decoded
  have fits := fits_encode reaches
  obtain ⟨after, runs, replaced⟩ := set_runs decoded reaches
  have holds := replaced.holds small
  obtain ⟨last, deletes, same, deleted⟩ := holds.delete_achieves fits
  refine ⟨after, runs, replaced, holds.runs_get fits, last, deletes, ?_, same,
    deleted.runs_get fits⟩
  intro offset within
  rw [deleted.cells offset within, encode_nil]
  cases offset <;> rfl

/-- A short byte string replaces one of three cells; behind the last slot a
long one is refused; a head of ones is left alone. -/
theorem set_replaces_hello :
    let blob : Blob := ⟨.storageProcessor, ⟨5⟩⟩
    let old : Contents := Contents.empty.set blob.headCell (Word.ofCount 81)
    let corrupt : Contents :=
      Contents.empty.set blob.headCell (BitVec.allOnes 256)
    let bytes := Utf8.ofString "hello"
    let high : Blob := ⟨.storageProcessor, ⟨BitVec.allOnes 256⟩⟩
    let long : Bytes := List.replicate 32 7
    bytes.length ≤ maxLong ∧ long.length ≤ maxLong ∧
    Head.decode? (old blob.headCell) blob.key = some (.long 40) ∧
    (∃ after, (blob.set bytes).Runs old () after ∧
      blob.Replaced (.long 40) bytes old after ∧
      blob.get.Runs after bytes after ∧
      ∃ last, blob.delete.Runs after () last ∧
        (∀ offset < slotCount bytes.length, last (blob.cell offset) = 0) ∧
        after.SameOff (blob.area (slotCount bytes.length)) last ∧
        blob.get.Runs last [] last) ∧
    (blob.set bytes).Fails corrupt (.corruptLength blob.key) corrupt ∧
    (high.set long).Fails Contents.empty (.slotOverflow high.key)
      Contents.empty := by
  intro blob old corrupt bytes high long
  have small : bytes.length ≤ maxLong := by decide
  have longSmall : long.length ≤ maxLong := by decide
  have reaches : blob.key.Reaches (slotCount bytes.length - 1) := by decide
  have beyond : ¬ high.key.Reaches (slotCount long.length - 1) := by decide
  have decoded : Head.decode? (old blob.headCell) blob.key =
      some (.long 40) := by decide
  have refused : Head.decode? (corrupt blob.headCell) blob.key = none := by
    decide
  exact ⟨small, longSmall, decoded,
    (set_replaces blob bytes old small).2.2.2 reaches _ decoded,
    (set_replaces blob bytes corrupt small).2.2.1 reaches refused,
    (set_replaces high long Contents.empty longSmall).2.1 beyond⟩

end Blob

end SlotStorage
