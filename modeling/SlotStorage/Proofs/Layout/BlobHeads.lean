import SlotStorage.Proofs.Layout.BlobEffects

/-!
# Heads that are accepted

Any word may lie at the head of a blob.  Its last byte tells the form, and the
form tells which lengths are accepted.  Reading gives exactly as many bytes as
an accepted head announces, deleting empties exactly the cells that it
announces, and both refuse the same heads without a change.
-/

namespace SlotStorage

/-- The last byte of a word. -/
def Word.lastByte (word : Word) : Nat :=
  ((Octets.toBytes word).getD 31 0).toNat

theorem Word.lastByte_eq (word : Word) : word.lastByte = word.toNat % 256 := by
  have lowest : (Octets.toBytes word).getD 31 0 =
      UInt8.ofNat (word.toNat % 256) := by
    rw [Octets.toBytes, Bytes.bigEndian, List.getD_reverse]
    · rfl
    · simp
  rw [lastByte, lowest]
  simp

namespace Blob

/-- The heads that are accepted at a slot, with what they announce.  Half of
an even last byte is the length of a short byte string.  Before an odd one the
whole word counts, and the length has to leave room for the allocation of the
byte string and for its cells before the last slot. -/
inductive Head.Accepted (word : Word) (slot : Slot) : Head → Prop where
  | short (even : word.lastByte % 2 = 0) (small : word.lastByte ≤ 62) :
      Accepted word slot (.short (word.lastByte / 2))
  | long (odd : word.lastByte % 2 = 1)
      (small : (word.toNat - 1) / 2 ≤ maxLong)
      (reaches : slot.Reaches (((word.toNat - 1) / 2 + 31) / 32)) :
      Accepted word slot (.long ((word.toNat - 1) / 2))

/-- The length that a head announces. -/
def Head.length : Head → Nat
  | .short length => length
  | .long length => length

variable {blob : Blob} {word : Word} {slot : Slot} {head : Head}
  {contents : Contents}

/-- Reading a head accepts what the grammar accepts. -/
theorem Head.decode?_eq_some_iff :
    Head.decode? word slot = some head ↔ Head.Accepted word slot head := by
  constructor
  · intro decoded
    unfold Head.decode? at decoded
    simp only [← Word.lastByte_eq] at decoded
    split at decoded
    · rename_i even
      split at decoded
      · rename_i short
        obtain rfl := Option.some.inj decoded
        have half : word.lastByte / 2 ≤ 31 := short
        exact .short even (by omega)
      · cases decoded
    · rename_i odd
      split at decoded
      · rename_i fits
        obtain rfl := Option.some.inj decoded
        exact .long (by omega) fits.1 (Slot.isSome_add?_iff.mp fits.2)
      · cases decoded
  · intro accepted
    unfold Head.decode?
    simp only [← Word.lastByte_eq]
    cases accepted with
    | short even small =>
        have half : word.lastByte / 2 ≤ maxShort := by
          unfold maxShort
          omega
        rw [if_pos even, if_pos half]
    | long odd small reaches =>
        rw [if_neg (by omega),
          if_pos ⟨small, Slot.isSome_add?_iff.mpr reaches⟩]

theorem Head.decode?_eq_none_iff :
    Head.decode? word slot = none ↔ ∀ head, ¬ Head.Accepted word slot head := by
  simp only [← Head.decode?_eq_some_iff, Option.eq_none_iff_forall_ne_some]

/-! ## Exactly what is announced -/

theorem length_bytesFrom (blob : Blob) (contents : Contents)
    (count offset : Nat) :
    (blob.bytesFrom contents count offset).length = 32 * count := by
  induction count generalizing offset with
  | zero => rfl
  | succ count induction =>
      rw [bytesFrom, List.length_append, Octets.length_toBytes, induction]
      omega

/-- No accepted head announces more bytes than its cells hold. -/
theorem length_announced
    (accepted : Head.Accepted word slot head) :
    (blob.announced contents head).length = head.length := by
  cases accepted with
  | short even small =>
      rw [announced, List.length_take, Octets.length_toBytes]
      exact Nat.min_eq_left (by omega)
  | long odd small reaches =>
      rw [announced, List.length_take, length_bytesFrom]
      apply Nat.min_eq_left
      unfold dataSlots
      omega

theorem get_fails_corrupt
    (corrupt : Head.decode? (contents blob.headCell) blob.key = none) :
    blob.get.Fails contents (.corruptLength blob.key) contents := by
  unfold Blob.get
  apply (Layout.runs_read blob.headCell contents).bind_fails
  rw [decodeHead, corrupt]
  rfl

/-- An empty head has nothing to delete. -/
theorem delete_runs_empty (empty : contents blob.headCell = 0) :
    blob.delete.Runs contents () contents := by
  unfold delete
  apply (Layout.runs_read blob.headCell contents).bind
  rw [if_pos empty]
  exact .pure _ _

/-- Whatever the cells hold: if the head is accepted, reading gives the bytes
that it announces, as many as it announces, and deleting empties its cells and
no others, none at all if it is empty.  If it is not accepted, both are refused
and change nothing.  Reading never runs past the last slot. -/
theorem reads_exactly_announced (blob : Blob) (contents : Contents) :
    (∀ head, Head.Accepted (contents blob.headCell) blob.key head →
      blob.get.Runs contents (blob.announced contents head) contents ∧
      (blob.announced contents head).length = head.length ∧
      (contents blob.headCell = 0 → blob.delete.Runs contents () contents) ∧
      ∃ after, blob.delete.Runs contents () after ∧
        blob.Emptied head.dataSlots contents after) ∧
    ((∀ head, ¬ Head.Accepted (contents blob.headCell) blob.key head) →
      blob.get.Fails contents (.corruptLength blob.key) contents ∧
      blob.delete.Fails contents (.corruptLength blob.key) contents) ∧
    ∀ base after, ¬ blob.get.Fails contents (.slotOverflow base) after := by
  have reads : ∀ head, Head.Accepted (contents blob.headCell) blob.key head →
      blob.get.Runs contents (blob.announced contents head) contents := by
    intro head accepted
    exact (reads_get trivial
      (Head.decode?_eq_some_iff.mpr accepted)).runs
  refine ⟨?_, ?_, ?_⟩
  · intro head accepted
    have decoded := Head.decode?_eq_some_iff.mpr accepted
    obtain ⟨_, after, deletes, emptied⟩ := (safe_delete decoded
      (fun _ _ _ => trivial) (fun _ _ => trivial)).runs
    exact ⟨reads head accepted, length_announced accepted, delete_runs_empty,
      after, deletes, emptied⟩
  · intro refused
    have corrupt := Head.decode?_eq_none_iff.mpr refused
    exact ⟨get_fails_corrupt corrupt, delete_fails_corrupt corrupt⟩
  · intro base after overflows
    cases decoded : Head.decode? (contents blob.headCell) blob.key with
    | some head =>
        have ran := reads head (Head.decode?_eq_some_iff.mp decoded)
        cases ran.symm.trans overflows
    | none => cases (get_fails_corrupt decoded).symm.trans overflows

/-- Five bytes in the form of long byte strings are read, though they are never
written so.  At the last slot such a head is refused. -/
theorem reads_exactly_announced_unusual :
    let blob : Blob := ⟨.storageProcessor, ⟨5⟩⟩
    let contents := (Contents.empty.set blob.headCell (Word.ofCount 11)).set
      (blob.cell 1) (Word.leftAligned (Utf8.ofString "hello!"))
    let high : Blob := ⟨.storageProcessor, ⟨BitVec.allOnes 256⟩⟩
    let beyond := Contents.empty.set high.headCell (Word.ofCount 11)
    Head.Accepted (contents blob.headCell) blob.key (.long 5) ∧
    blob.get.Runs contents (Utf8.ofString "hello") contents ∧
    (∃ after, blob.delete.Runs contents () after ∧
      blob.Emptied 1 contents after) ∧
    (∀ head, ¬ Head.Accepted (beyond high.headCell) high.key head) ∧
    high.get.Fails beyond (.corruptLength high.key) beyond ∧
    high.delete.Fails beyond (.corruptLength high.key) beyond := by
  intro blob contents high beyond
  have accepted : Head.Accepted (contents blob.headCell) blob.key
      (.long 5) := Head.decode?_eq_some_iff.mp (by decide)
  have refused : ∀ head,
      ¬ Head.Accepted (beyond high.headCell) high.key head :=
    Head.decode?_eq_none_iff.mp (by decide)
  have hello : blob.announced contents (.long 5) = Utf8.ofString "hello" := by
    decide
  obtain ⟨reads, _, _, deletes⟩ :=
    (reads_exactly_announced blob contents).1 _ accepted
  rw [hello] at reads
  have fails := (reads_exactly_announced high beyond).2.1 refused
  exact ⟨accepted, reads, deletes, refused, fails.1, fails.2⟩

end Blob

end SlotStorage
