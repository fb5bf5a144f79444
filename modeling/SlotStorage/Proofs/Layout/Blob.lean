import Mathlib.Data.List.GetD
import SlotStorage.Layout.Blob
import SlotStorage.Proofs.Faults

/-!
# Blobs as byte strings

The words of a byte string determine it in both forms.  A blob holds a byte
string when its cells are the words of the string and zeros after them; the
empty string and an absent one look alike.
-/

namespace SlotStorage

theorem Word.toBytes_leftAligned {bytes : Bytes}
    (short : bytes.length ≤ 32) :
    Octets.toBytes (Word.leftAligned bytes) =
      bytes ++ List.replicate (32 - bytes.length) 0 := by
  apply Octets.toBytes_ofBytes
  rw [List.length_append, List.length_replicate]
  omega

namespace Blob

/-! ## Words of a byte string -/

/-- The head of a short byte string. -/
def shortWord (bytes : Bytes) : Word :=
  Octets.ofBytes 32 (bytes ++ List.replicate (31 - bytes.length) 0
    ++ [UInt8.ofNat (bytes.length * 2)])

/-- What the head of a byte string announces. -/
def Head.ofLength (length : Nat) : Head :=
  if length ≤ maxShort then .short length else .long length

variable {bytes : Bytes} {slot : Slot}

theorem encode_short (short : bytes.length ≤ maxShort) :
    encode bytes = [shortWord bytes] :=
  if_pos short

theorem encode_long (long : ¬ bytes.length ≤ maxShort) :
    encode bytes = Word.ofCount (bytes.length * 2 + 1) ::
      dataWords (dataSlots bytes.length) bytes :=
  if_neg long

theorem length_dataWords (count : Nat) (bytes : Bytes) :
    (dataWords count bytes).length = count := by
  induction count generalizing bytes with
  | zero => rfl
  | succ count induction =>
      rw [dataWords, List.length_cons, induction]

theorem length_encode (bytes : Bytes) :
    (encode bytes).length = slotCount bytes.length := by
  by_cases short : bytes.length ≤ maxShort
  · rw [encode_short short, slotCount, if_pos short]
    rfl
  · rw [encode_long short, slotCount, if_neg short, List.length_cons,
      length_dataWords]
    omega

theorem slotCount_pos (length : Nat) : 0 < slotCount length := by
  unfold slotCount
  split <;> omega

theorem dataSlots_ofLength (length : Nat) :
    (Head.ofLength length).dataSlots + 1 = slotCount length := by
  by_cases short : length ≤ maxShort
  · rw [Head.ofLength, slotCount, if_pos short, if_pos short]
    rfl
  · rw [Head.ofLength, slotCount, if_neg short, if_neg short, Nat.add_comm]
    rfl

/-- A head that is read announces cells before the last slot only. -/
theorem Head.reaches_of_decode {word : Word} {head : Head}
    (decoded : Head.decode? word slot = some head) :
    slot.Reaches head.dataSlots := by
  unfold Head.decode? at decoded
  simp only at decoded
  split at decoded
  · split at decoded
    · obtain rfl := Option.some.inj decoded
      have inside : slot.toNat < Word.bound := slot.word.isLt
      exact inside
    · cases decoded
  · split at decoded
    · rename_i fits
      obtain rfl := Option.some.inj decoded
      exact Slot.isSome_add?_iff.mp fits.2
    · cases decoded

theorem Head.length_le_of_decode {word : Word} {length : Nat}
    (decoded : Head.decode? word slot = some (.short length)) :
    length ≤ maxShort := by
  unfold Head.decode? at decoded
  simp only at decoded
  split at decoded
  · split at decoded
    · rename_i short
      obtain rfl := Head.short.inj (Option.some.inj decoded)
      exact short
    · cases decoded
  · split at decoded
    · cases Option.some.inj decoded
    · cases decoded

/-- An empty head stands for the empty byte string. -/
theorem Head.decode?_zero (slot : Slot) :
    Head.decode? 0 slot = some (.short 0) :=
  rfl

section Short

variable (short : bytes.length ≤ maxShort)

include short

theorem toBytes_shortWord :
    Octets.toBytes (shortWord bytes) =
      bytes ++ List.replicate (31 - bytes.length) 0
        ++ [UInt8.ofNat (bytes.length * 2)] := by
  have bound : bytes.length ≤ 31 := short
  apply Octets.toBytes_ofBytes
  rw [List.length_append, List.length_append, List.length_replicate,
    List.length_singleton]
  omega

theorem toNat_shortWord_mod :
    (shortWord bytes).toNat % 256 = bytes.length * 2 := by
  have bound : bytes.length ≤ 31 := short
  have spelled : (shortWord bytes).toNat =
      (UInt8.ofNat (bytes.length * 2)).toNat + 256 * Bytes.ofBigEndian
        (bytes ++ List.replicate (31 - bytes.length) 0) := by
    rw [← Bytes.ofBigEndian_concat]
    apply Octets.toNat_ofBytes
    rw [List.length_append, List.length_append, List.length_replicate,
      List.length_singleton]
    omega
  have last : (UInt8.ofNat (bytes.length * 2)).toNat = bytes.length * 2 :=
    UInt8.toNat_ofNat_of_lt (show bytes.length * 2 < 256 by omega)
  omega

end Short

/-- The head word announces the byte string that it belongs to. -/
theorem decode?_head (small : bytes.length ≤ maxLong)
    (reaches : slot.Reaches (slotCount bytes.length - 1)) :
    Head.decode? ((encode bytes).getD 0 0) slot =
      some (Head.ofLength bytes.length) := by
  by_cases short : bytes.length ≤ maxShort
  · have last := toNat_shortWord_mod short
    rw [encode_short short]
    change Head.decode? (shortWord bytes) slot = _
    unfold Head.decode?
    simp only [last]
    rw [if_pos (by omega), Nat.mul_div_cancel _ (by decide), if_pos short,
      Head.ofLength, if_pos short]
  · have counted : bytes.length * 2 + 1 < Word.countBound := by
      simp only [maxLong, Word.countBound] at small ⊢
      omega
    rw [slotCount, if_neg short, Nat.add_sub_cancel_left] at reaches
    rw [encode_long short]
    change Head.decode? (Word.ofCount (bytes.length * 2 + 1)) slot = _
    have half : (bytes.length * 2 + 1 - 1) / 2 = bytes.length := by omega
    have fits : bytes.length ≤ maxLong ∧
        (slot.add? (dataSlots bytes.length)).isSome :=
      ⟨small, by rw [Slot.add?_of_reaches reaches]; rfl⟩
    unfold Head.decode?
    simp only [Word.toNat_ofCount counted, half]
    rw [if_neg (by omega), if_pos fits, Head.ofLength, if_neg short]

/-! ## Cells of a blob -/

/-- The cell at a distance from the head, around the end of the slots. -/
def cell (blob : Blob) (offset : Nat) : Cell :=
  blob.headCell.shift offset

/-- The cells of a blob lie before the last slot. -/
def Fits (blob : Blob) (capacity : Nat) : Prop :=
  ∀ offset < capacity, blob.key.Reaches offset

/-- The cells that a blob of a given size may take up. -/
def area (blob : Blob) (capacity : Nat) : Set Cell :=
  blob.headCell.row capacity

/-- The byte string is not too long for a head or for the cells. -/
structure Holdable (capacity : Nat) (bytes : Bytes) : Prop where
  small : bytes.length ≤ maxLong
  room : slotCount bytes.length ≤ capacity

instance (capacity : Nat) (bytes : Bytes) :
    Decidable (Holdable capacity bytes) :=
  decidable_of_iff
    (bytes.length ≤ maxLong ∧ slotCount bytes.length ≤ capacity)
    ⟨fun both => ⟨both.1, both.2⟩, fun both => ⟨both.small, both.room⟩⟩

/-- The cells are the words of the byte string, and empty after them. -/
structure Holds (blob : Blob) (capacity : Nat) (bytes : Bytes)
    (contents : Contents) : Prop extends Holdable capacity bytes where
  cells : ∀ offset < capacity,
    contents (blob.cell offset) = (encode bytes).getD offset 0

variable {blob : Blob} {capacity offset : Nat} {contents after : Contents}

@[simp] theorem cell_zero (blob : Blob) : blob.cell 0 = blob.headCell :=
  Cell.shift_zero _

theorem cell_mem_area (within : offset < capacity) :
    blob.cell offset ∈ blob.area capacity :=
  Cell.shift_mem_row within

theorem Fits.cell_ne (fits : blob.Fits capacity) {other : Nat}
    (within : offset < capacity) (otherWithin : other < capacity)
    (different : offset ≠ other) : blob.cell offset ≠ blob.cell other := by
  intro equality
  exact different (Cell.shift_injective (fits offset within)
    (fits other otherWithin) equality)

theorem Fits.cellAt_eq (fits : blob.Fits capacity)
    (within : offset < capacity) :
    blob.cellAt offset = pure (blob.cell offset) := by
  rw [cellAt, Slot.add?_of_reaches (fits offset within)]
  rfl

theorem cellAt_of_not_reaches (beyond : ¬ blob.key.Reaches offset) :
    blob.cellAt offset = throw (.slotOverflow blob.key) := by
  rw [cellAt, Slot.add?_of_not_reaches beyond]
  rfl

theorem Fits.of_reaches {last : Nat} (reaches : blob.key.Reaches last) :
    blob.Fits (last + 1) :=
  fun _ within => reaches.mono (Nat.le_of_lt_succ within)

theorem area_mono {smaller : Nat} (within : smaller ≤ capacity) :
    blob.area smaller ⊆ blob.area capacity :=
  Cell.row_subset within

theorem Fits.cell_not_mem_area (fits : blob.Fits capacity) {smaller : Nat}
    (within : offset < capacity) (later : smaller ≤ offset) :
    blob.cell offset ∉ blob.area smaller :=
  Cell.shift_not_mem_row (fits offset within) later

theorem Holds.congr (holds : blob.Holds capacity bytes contents)
    (same : ∀ cell ∈ blob.area capacity, after cell = contents cell) :
    blob.Holds capacity bytes after := by
  refine ⟨holds.toHoldable, ?_⟩
  intro offset within
  rw [same _ (cell_mem_area within)]
  exact holds.cells offset within

theorem encode_nil : encode [] = [0] := by
  decide

theorem Holds.of_empty (positive : 0 < capacity)
    (empty : ∀ cell ∈ blob.area capacity, contents cell = 0) :
    blob.Holds capacity [] contents := by
  refine ⟨⟨Nat.zero_le _, positive⟩, ?_⟩
  intro offset within
  rw [empty _ (cell_mem_area within), encode_nil]
  cases offset <;> rfl

/-! ## Deleting and writing, call by call -/

/-- A deletion on its way: the data cells after the first ones are empty. -/
structure Erased (blob : Blob) (last left : Nat)
    (before after : Contents) : Prop where
  same : before.SameOff (blob.area (last + 1)) after
  cells : ∀ offset ≤ last, after (blob.cell offset) =
    if left < offset then 0 else before (blob.cell offset)

/-- All cells up to a distance are empty. -/
structure Emptied (blob : Blob) (last : Nat)
    (before after : Contents) : Prop where
  same : before.SameOff (blob.area (last + 1)) after
  cells : ∀ offset ≤ last, after (blob.cell offset) = 0

/-- A writing on its way: the first words are written. -/
structure Written (blob : Blob) (words : List Word) (count : Nat)
    (before after : Contents) : Prop where
  same : before.SameOff (blob.area words.length) after
  cells : ∀ offset (within : offset < words.length),
    after (blob.cell offset) =
      if offset < count then words[offset] else before (blob.cell offset)

theorem Erased.refl (blob : Blob) (last : Nat) (contents : Contents) :
    blob.Erased last last contents contents := by
  refine ⟨.refl _ _, ?_⟩
  intro offset within
  rw [if_neg (by omega)]

theorem Written.refl (blob : Blob) (words : List Word)
    (contents : Contents) : blob.Written words 0 contents contents := by
  refine ⟨.refl _ _, ?_⟩
  intro offset within
  rw [if_neg (Nat.not_lt_zero offset)]

section Steps

variable {last left count : Nat} {words : List Word} {before : Contents}

theorem Erased.next (erased : blob.Erased last (left + 1) before contents)
    (fits : blob.Fits (last + 1)) (within : left + 1 ≤ last) :
    blob.Erased last left before
      (contents.set (blob.cell (left + 1)) 0) := by
  refine ⟨erased.same.set (cell_mem_area (by omega)) 0, ?_⟩
  intro offset offsetWithin
  by_cases here : offset = left + 1
  · rw [here, if_pos (Nat.lt_succ_self left), Contents.set_same]
  · have step : left < offset ↔ left + 1 < offset := by omega
    rw [Contents.set_other (fits.cell_ne (by omega) (by omega) here),
      erased.cells offset offsetWithin]
    simp only [step]

/-- The head goes when the data cells are empty. -/
theorem Erased.emptied (erased : blob.Erased last 0 before contents)
    (fits : blob.Fits (last + 1)) :
    blob.Emptied last before (contents.set blob.headCell 0) := by
  rw [← cell_zero]
  refine ⟨erased.same.set (cell_mem_area (by omega)) 0, ?_⟩
  intro offset within
  by_cases first : offset = 0
  · rw [first, Contents.set_same]
  · rw [Contents.set_other (fits.cell_ne (by omega) (by omega) first),
      erased.cells offset within, if_pos (Nat.pos_of_ne_zero first)]

theorem Written.next (written : blob.Written words count before contents)
    (fits : blob.Fits words.length) (within : count < words.length) :
    blob.Written words (count + 1) before
      (contents.set (blob.cell count) words[count]) := by
  refine ⟨written.same.set (cell_mem_area within) _, ?_⟩
  intro offset offsetWithin
  by_cases here : offset = count
  · subst offset
    rw [if_pos (Nat.lt_succ_self count), Contents.set_same]
  · have step : offset < count + 1 ↔ offset < count := by omega
    rw [Contents.set_other (fits.cell_ne offsetWithin within here),
      written.cells offset offsetWithin]
    simp only [step]

end Steps

section Faults

variable {causes : StoreError → Prop} {keeps : Contents → Prop}
  {head : Head} {before : Contents}

theorem safe_eraseData {last left : Nat} (fits : blob.Fits (last + 1))
    (kept : ∀ left between, blob.Erased last left before between →
      keeps between)
    (within : left ≤ last)
    (erased : blob.Erased last left before contents) :
    Layout.Safe causes keeps (blob.eraseData left) contents
      (fun _ after => blob.Erased last 0 before after) := by
  induction left generalizing contents with
  | zero => exact Layout.Safe.pure (kept 0 contents erased) erased
  | succ left induction =>
      have next := erased.next fits within
      unfold eraseData
      rw [fits.cellAt_eq (by omega)]
      apply (Layout.Reads.pure (kept _ contents erased)).bind
      apply (Layout.safe_write _ 0 (kept _ contents erased)
        (kept left _ next)).bind
      rintro answer between _ ⟨_, rfl⟩
      exact induction (by omega) next

theorem safe_writeFrom {words rest : List Word} {count : Nat}
    (fits : blob.Fits words.length)
    (kept : ∀ count between, blob.Written words count before between →
      keeps between)
    (remaining : words.drop count = rest)
    (written : blob.Written words count before contents) :
    Layout.Safe causes keeps (blob.writeFrom count rest) contents
      (fun _ after => blob.Written words words.length before after) := by
  induction rest generalizing count contents with
  | nil =>
      have finished : words.length ≤ count :=
        List.drop_eq_nil_iff.mp remaining
      apply Layout.Safe.pure (kept count contents written)
      refine ⟨written.same, ?_⟩
      intro offset within
      rw [written.cells offset within, if_pos (by omega), if_pos within]
  | cons word rest induction =>
      have within : count < words.length := by
        by_contra finished
        rw [List.drop_eq_nil_of_le (Nat.le_of_not_lt finished)] at remaining
        cases remaining
      rw [List.drop_eq_getElem_cons within] at remaining
      obtain ⟨rfl, others⟩ := List.cons.inj remaining
      have next := written.next fits within
      unfold writeFrom
      rw [fits.cellAt_eq within]
      apply (Layout.Reads.pure (kept count contents written)).bind
      apply (Layout.safe_write _ _ (kept count contents written)
        (kept (count + 1) _ next)).bind
      rintro answer between _ ⟨_, rfl⟩
      exact induction others next

variable (decoded : Head.decode? (contents blob.headCell) blob.key =
    some head)
  (keptErased : ∀ left between,
    blob.Erased head.dataSlots left contents between → keeps between)
  (keptEmptied : ∀ between, blob.Emptied head.dataSlots contents between →
    keeps between)

include decoded keptErased keptEmptied

/-- The data cells are emptied from the last one on, and then the head.  The
head tells how many there are, whatever they hold. -/
theorem safe_delete :
    Layout.Safe causes keeps blob.delete contents
      (fun _ after => blob.Emptied head.dataSlots contents after) := by
  have fits : blob.Fits (head.dataSlots + 1) :=
    .of_reaches (Head.reaches_of_decode decoded)
  have start := Erased.refl blob head.dataSlots contents
  have keptStart := keptErased _ _ start
  unfold delete
  apply (Layout.reads_read blob.headCell keptStart).bind
  by_cases absent : contents blob.headCell = 0
  · rw [absent, Head.decode?_zero] at decoded
    obtain rfl := Option.some.inj decoded
    rw [if_pos absent]
    apply Layout.Safe.pure keptStart
    refine ⟨.refl _ _, ?_⟩
    intro offset within
    rw [Nat.le_zero.mp within, cell_zero, absent]
  · rw [if_neg absent, decodeHead, decoded, Layout.require_some]
    apply (Layout.Reads.pure keptStart).bind
    apply (safe_eraseData fits keptErased (Nat.le_refl _) start).bind
    intro _ between keptBetween erased
    have emptied := erased.emptied fits
    apply (Layout.safe_write _ 0 keptBetween (keptEmptied _ emptied)).bind
    rintro _ after keptAfter ⟨_, rfl⟩
    exact Layout.Safe.pure keptAfter emptied

/-- The old byte string is deleted, and then the words of the new one are
written, the head first. -/
theorem safe_set (reaches : blob.key.Reaches (slotCount bytes.length - 1))
    (keptWritten : ∀ between count after,
      blob.Emptied head.dataSlots contents between →
      blob.Written (encode bytes) count between after → keeps after) :
    Layout.Safe causes keeps (blob.set bytes) contents
      (fun _ after => ∃ between,
        blob.Emptied head.dataSlots contents between ∧
          blob.Written (encode bytes) (encode bytes).length between
            after) := by
  have positive := slotCount_pos bytes.length
  have length := length_encode bytes
  have fits : blob.Fits (encode bytes).length := by
    rw [length, ← Nat.sub_add_cancel positive]
    exact .of_reaches reaches
  have keptStart := keptErased _ _ (Erased.refl blob head.dataSlots contents)
  unfold Blob.set
  dsimp only
  rw [Layout.difference_eq (by omega)]
  apply (Layout.Reads.pure keptStart).bind
  rw [fits.cellAt_eq (by omega)]
  apply (Layout.Reads.pure keptStart).bind
  apply (safe_delete decoded keptErased keptEmptied).bind
  intro _ between _ emptied
  apply (safe_writeFrom fits
    (fun count after written => keptWritten between count after emptied
      written) rfl (Written.refl blob (encode bytes) between)).mono
  exact fun _ after _ written => ⟨between, emptied, written⟩

end Faults

/-! ## Replacing and deleting the held byte string -/

section Operations

variable (holds : blob.Holds capacity bytes contents)
  (fits : blob.Fits capacity)

include holds fits

theorem Holds.decode?_headCell :
    Head.decode? (contents blob.headCell) blob.key =
      some (Head.ofLength bytes.length) := by
  have room := holds.room
  have positive := slotCount_pos bytes.length
  have head := holds.cells 0 (by omega)
  rw [cell_zero] at head
  rw [head]
  exact decode?_head holds.small (fits _ (by omega))

omit fits in
/-- Once the cells of the byte string are empty, so are all cells. -/
theorem Holds.emptied (fits : blob.Fits capacity)
    (emptied : blob.Emptied (Head.ofLength bytes.length).dataSlots contents
      after) :
    contents.SameOff (blob.area capacity) after ∧
      ∀ offset < capacity, after (blob.cell offset) = 0 := by
  have slots := dataSlots_ofLength bytes.length
  have room := holds.room
  refine ⟨emptied.same.mono (area_mono (by omega)), ?_⟩
  intro offset within
  by_cases used : offset ≤ (Head.ofLength bytes.length).dataSlots
  · exact emptied.cells offset used
  · rw [emptied.same _ (fits.cell_not_mem_area within (by omega)),
      holds.cells offset within, List.getD_eq_default]
    rw [length_encode]
    omega

theorem Holds.delete_achieves :
    blob.delete.Achieves (blob.area capacity) contents ()
      (blob.Holds capacity []) := by
  apply Layout.Safe.achieves
  apply (safe_delete (holds.decode?_headCell fits) (fun _ _ _ => trivial)
    (fun _ _ => trivial)).mono
  intro answer after _ deleted
  obtain ⟨same, empty⟩ := holds.emptied fits deleted
  have room := holds.room
  have positive := slotCount_pos bytes.length
  refine ⟨rfl, same, .of_empty (by omega) ?_⟩
  rintro cell ⟨offset, within, rfl⟩
  exact empty offset within

theorem Holds.set_achieves {later : Bytes}
    (holdable : Holdable capacity later) :
    (blob.set later).Achieves (blob.area capacity) contents ()
      (blob.Holds capacity later) := by
  have room := holdable.room
  have positive := slotCount_pos later.length
  have length := length_encode later
  apply Layout.Safe.achieves
  apply (safe_set (holds.decode?_headCell fits) (fun _ _ _ => trivial)
    (fun _ _ => trivial) (fits _ (by omega))
    (fun _ _ _ _ _ => trivial)).mono
  rintro answer after _ ⟨between, deleted, written⟩
  obtain ⟨same, empty⟩ := holds.emptied fits deleted
  refine ⟨rfl, same.trans (written.same.mono (area_mono (by omega))),
    holdable, ?_⟩
  intro offset within
  by_cases used : offset < (encode later).length
  · rw [written.cells offset used, if_pos used, List.getD_eq_getElem _ _ used]
  · rw [written.same _ (fits.cell_not_mem_area within (by omega)),
      empty offset within, List.getD_eq_default _ _ (by omega)]

end Operations

/-! ## Reading -/

/-- The bytes in the given count of cells, the first of them at a
distance. -/
def bytesFrom (blob : Blob) (contents : Contents) : Nat → Nat → Bytes
  | 0, _ => []
  | count + 1, offset =>
    Octets.toBytes (contents (blob.cell offset)) ++
      blob.bytesFrom contents count (offset + 1)

/-- The byte string that a head announces. -/
def announced (blob : Blob) (contents : Contents) : Head → Bytes
  | .short length =>
    (Octets.toBytes (contents blob.headCell)).take length
  | .long length =>
    (blob.bytesFrom contents (dataSlots length) 1).take length

section Reading

variable {causes : StoreError → Prop} {keeps : Contents → Prop}
  (kept : keeps contents)

include kept

theorem reads_readFrom (fits : blob.Fits capacity) {count length : Nat}
    (within : offset + count ≤ capacity) (enough : length ≤ 32 * count) :
    Layout.Reads causes keeps (blob.readFrom count offset length) contents
      ((blob.bytesFrom contents count offset).take length) := by
  induction count generalizing offset length with
  | zero =>
      rw [bytesFrom, List.take_nil]
      exact Layout.Reads.pure kept
  | succ count induction =>
      have width : (Octets.toBytes (contents (blob.cell offset))).length =
          32 := Octets.length_toBytes _
      have front : (Octets.toBytes (contents (blob.cell offset))).take
          (min length 32) =
            (Octets.toBytes (contents (blob.cell offset))).take length := by
        rw [List.take_eq_take_min (i := length), width]
      have others : Layout.Reads causes keeps
          (blob.readFrom count (offset + 1) (length - min length 32)) contents
          ((blob.bytesFrom contents count (offset + 1)).take
            (length - min length 32)) :=
        induction (by omega) (by omega)
      unfold readFrom
      rw [fits.cellAt_eq (by omega)]
      apply (Layout.Reads.pure kept).bind
      apply (Layout.reads_read (blob.cell offset) kept).bind
      dsimp only
      rw [Layout.firstBytes_eq (by omega), front]
      apply (Layout.Reads.pure kept).bind
      rw [Layout.difference_eq (by omega)]
      apply (Layout.Reads.pure kept).bind
      apply others.bind
      rw [show length - min length 32 = length - 32 by omega, bytesFrom,
        List.take_append, width]
      exact Layout.Reads.pure kept

/-- A blob is read as its head announces, whatever the cells hold. -/
theorem reads_get {head : Head}
    (decoded : Head.decode? (contents blob.headCell) blob.key =
      some head) :
    Layout.Reads causes keeps blob.get contents
      (blob.announced contents head) := by
  have fits : blob.Fits (head.dataSlots + 1) :=
    .of_reaches (Head.reaches_of_decode decoded)
  unfold Blob.get
  apply (Layout.reads_read blob.headCell kept).bind
  rw [decodeHead, decoded, Layout.require_some]
  apply (Layout.Reads.pure kept).bind
  cases head with
  | short length =>
      have width : (Octets.toBytes (contents blob.headCell)).length = 32 :=
        Octets.length_toBytes _
      have enough : length ≤ 31 := Head.length_le_of_decode decoded
      change Layout.Reads causes keeps (Layout.firstBytes length _) _ _
      rw [Layout.firstBytes_eq (by omega)]
      exact Layout.Reads.pure kept
  | long length =>
      have exact : length ≤ 32 * dataSlots length := by
        unfold dataSlots
        omega
      exact reads_readFrom kept fits (Nat.add_comm _ _).le exact

end Reading

/-- Reading data words gives back the bytes that they were made of. -/
theorem take_bytesFrom {count : Nat}
    (exact : dataSlots bytes.length = count)
    (cells : ∀ index < count, contents (blob.cell (offset + index)) =
      (dataWords count bytes).getD index 0) :
    (blob.bytesFrom contents count offset).take bytes.length = bytes := by
  induction count generalizing offset bytes with
  | zero =>
      have empty : bytes = [] := by
        apply List.length_eq_zero_iff.mp
        unfold dataSlots at exact
        omega
      rw [empty]
      rfl
  | succ count induction =>
      have taken : (bytes.take 32).length = min bytes.length 32 := by
        rw [List.length_take, Nat.min_comm]
      have first := cells 0 (Nat.succ_pos count)
      have aligned := Word.toBytes_leftAligned
        (show (bytes.take 32).length ≤ 32 by omega)
      have width := Octets.length_toBytes
        (Word.leftAligned (bytes.take 32))
      have front : (Octets.toBytes (Word.leftAligned (bytes.take 32))).take
          bytes.length = bytes.take 32 := by
        rw [List.take_eq_take_min, width, ← taken, aligned, List.take_left]
      have others : (blob.bytesFrom contents count (offset + 1)).take
          (bytes.drop 32).length = bytes.drop 32 := by
        apply induction
        · unfold dataSlots at exact ⊢
          rw [List.length_drop]
          omega
        · intro index indexWithin
          rw [Nat.add_right_comm, Nat.add_assoc]
          exact cells (index + 1) (by omega)
      rw [Nat.add_zero] at first
      rw [bytesFrom, first]
      simp only [dataWords, List.getD_cons_zero]
      rw [List.take_append, width, front, ← List.length_drop, others,
        List.take_append_drop]

theorem Holds.reads_get {causes : StoreError → Prop}
    {keeps : Contents → Prop} (holds : blob.Holds capacity bytes contents)
    (fits : blob.Fits capacity) (kept : keeps contents) :
    Layout.Reads causes keeps blob.get contents bytes := by
  have room := holds.room
  have positive := slotCount_pos bytes.length
  have head := holds.cells 0 (by omega)
  rw [cell_zero] at head
  have announces : blob.announced contents (Head.ofLength bytes.length) =
      bytes := by
    by_cases short : bytes.length ≤ maxShort
    · rw [Head.ofLength, if_pos short, announced, head, encode_short short]
      change (Octets.toBytes (shortWord bytes)).take bytes.length = bytes
      rw [toBytes_shortWord short, List.append_assoc, List.take_left]
    · rw [slotCount, if_neg short] at room
      rw [Head.ofLength, if_neg short, announced]
      apply take_bytesFrom rfl
      intro index within
      rw [holds.cells _ (by omega), encode_long short, Nat.add_comm 1 index,
        List.getD_cons_succ]
  have reads : Layout.Reads causes keeps blob.get contents
      (blob.announced contents (Head.ofLength bytes.length)) :=
    Blob.reads_get kept (holds.decode?_headCell fits)
  rwa [announces] at reads

theorem Holds.runs_get (holds : blob.Holds capacity bytes contents)
    (fits : blob.Fits capacity) : blob.get.Runs contents bytes contents :=
  (holds.reads_get fits trivial).runs

end Blob

end SlotStorage
