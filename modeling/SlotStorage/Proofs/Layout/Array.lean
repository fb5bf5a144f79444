import SlotStorage.Layout.Array
import SlotStorage.Proofs.Faults

/-!
# Arrays as lists

An array shows a list when its length cell counts the list and its element
cells hold it.  Every single write that an operation makes moves the shown
list by one simple step, so the steps are stated first and the operations are
assembled from them.  An array holds a list when, beyond showing it, the cells
after it are empty up to a capacity.  After a failure a word may be left there,
which no operation minds.
-/

namespace SlotStorage

namespace DynamicArray

/-- The cell of an element, around the end of the slots. -/
def element (array : DynamicArray) (index : Nat) : Cell :=
  array.lengthCell.shift (index + 1)

/-- There is room for as many elements as the capacity says, before the last
slot and with lengths of 64 bits. -/
structure Fits (array : DynamicArray) (capacity : Nat) : Prop where
  reaches : array.base.Reaches capacity
  counts : capacity < Word.countBound

/-- The cells of an array of a given capacity, the length cell included. -/
def area (array : DynamicArray) (capacity : Nat) : Set Cell :=
  array.lengthCell.row (capacity + 1)

/-- The length and the elements read as the list. -/
structure Shows (array : DynamicArray) (list : List Word)
    (contents : Contents) : Prop where
  size : contents array.lengthCell = Word.ofCount list.length
  elements : ∀ index (within : index < list.length),
    contents (array.element index) = list[index]

/-- The array shows the list, and the cells after it are empty. -/
structure Holds (array : DynamicArray) (capacity : Nat) (list : List Word)
    (contents : Contents) : Prop where
  bounded : list.length ≤ capacity
  shown : array.Shows list contents
  empty : ∀ index, list.length ≤ index → index < capacity →
    contents (array.element index) = 0

/-- The array shows the list.  Words may lie after it, unless the array is
tidy. -/
structure Carries (array : DynamicArray) (tidy : Prop) (capacity : Nat)
    (list : List Word) (contents : Contents) : Prop where
  bounded : list.length ≤ capacity
  shown : array.Shows list contents
  empty : tidy → ∀ index, list.length ≤ index → index < capacity →
    contents (array.element index) = 0

variable {array : DynamicArray} {tidy : Prop} {capacity index : Nat}
  {list : List Word} {contents after : Contents} {value : Word}

theorem lengthCell_mem_area (array : DynamicArray) (capacity : Nat) :
    array.lengthCell ∈ array.area capacity :=
  Cell.mem_row (Nat.succ_pos capacity)

theorem element_mem_area (within : index < capacity) :
    array.element index ∈ array.area capacity :=
  Cell.shift_mem_row (by omega)

theorem Fits.mono (fits : array.Fits capacity) {smaller : Nat}
    (within : smaller ≤ capacity) : array.Fits smaller :=
  ⟨fits.reaches.mono within, Nat.lt_of_le_of_lt within fits.counts⟩

theorem Fits.element_ne_lengthCell (fits : array.Fits capacity)
    (within : index < capacity) : array.element index ≠ array.lengthCell := by
  have different : array.lengthCell.shift (index + 1) ≠
      array.lengthCell.shift 0 :=
    Cell.shift_ne capacity fits.reaches (by omega) (by omega)
      (by omega)
  simpa [element] using different

theorem Fits.element_ne {other : Nat} (fits : array.Fits capacity)
    (within : index < capacity) (otherWithin : other < capacity)
    (different : index ≠ other) :
    array.element index ≠ array.element other :=
  Cell.shift_ne capacity fits.reaches (by omega) (by omega)
    (by omega)

theorem Fits.elementCell_eq (fits : array.Fits capacity)
    (within : index < capacity) :
    array.elementCell index = pure (array.element index) := by
  have reaches : array.base.Reaches (index + 1) :=
    fits.reaches.mono (by omega)
  rw [elementCell, Slot.add?_of_reaches reaches]
  rfl

/-! ## What single writes do to the shown list -/

/-- Showing a list depends on the cells of the array only. -/
theorem Shows.congr (shown : array.Shows list contents)
    (bounded : list.length ≤ capacity)
    (same : ∀ cell ∈ array.area capacity, after cell = contents cell) :
    array.Shows list after := by
  constructor
  · rw [same _ (array.lengthCell_mem_area capacity)]
    exact shown.size
  · intro index within
    rw [same _ (element_mem_area (by omega))]
    exact shown.elements index within

theorem Shows.set_off (shown : array.Shows list contents)
    (bounded : list.length ≤ capacity) {cell : Cell}
    (outside : cell ∉ array.area capacity) (value : Word) :
    array.Shows list (contents.set cell value) := by
  apply shown.congr bounded
  intro other inside
  apply Contents.set_other
  rintro rfl
  exact outside inside

/-- A write after the last element is not seen. -/
theorem Shows.set_after (shown : array.Shows list contents)
    (fits : array.Fits capacity) (later : list.length ≤ index)
    (within : index < capacity) (value : Word) :
    array.Shows list (contents.set (array.element index) value) := by
  constructor
  · rw [Contents.set_other (fits.element_ne_lengthCell within).symm]
    exact shown.size
  · intro other otherWithin
    rw [Contents.set_other (fits.element_ne (by omega) within (by omega))]
    exact shown.elements other otherWithin

theorem Shows.set_element (shown : array.Shows list contents)
    (fits : array.Fits capacity) (bounded : list.length ≤ capacity)
    (within : index < list.length) (value : Word) :
    array.Shows (list.set index value)
      (contents.set (array.element index) value) := by
  constructor
  · rw [Contents.set_other (fits.element_ne_lengthCell (by omega)).symm,
      List.length_set]
    exact shown.size
  · intro other otherWithin
    rw [List.length_set] at otherWithin
    by_cases same : index = other
    · subst other
      rw [Contents.set_same, List.getElem_set_self]
    · rw [Contents.set_other (fits.element_ne (by omega) (by omega)
          (Ne.symm same)), List.getElem_set_ne same]
      exact shown.elements other otherWithin

/-- Counting one element more shows the word that lies after the list. -/
theorem Shows.grow (shown : array.Shows list contents)
    (fits : array.Fits capacity) (room : list.length < capacity)
    (placed : contents (array.element list.length) = value) :
    array.Shows (list ++ [value])
      (contents.set array.lengthCell (Word.ofCount (list.length + 1))) := by
  constructor
  · rw [Contents.set_same, List.length_append]
    rfl
  · intro index within
    have indexWithin : index < list.length + 1 := by simpa using within
    rw [Contents.set_other (fits.element_ne_lengthCell (by omega))]
    by_cases last : index = list.length
    · subst index
      rw [placed, List.getElem_concat_length rfl]
    · rw [List.getElem_append_left (by omega)]
      exact shown.elements index (by omega)

/-- Counting one element less drops the last one. -/
theorem Shows.shrink (shown : array.Shows list contents)
    (fits : array.Fits capacity) (bounded : list.length ≤ capacity) :
    array.Shows list.dropLast
      (contents.set array.lengthCell (Word.ofCount (list.length - 1))) := by
  constructor
  · rw [Contents.set_same, List.length_dropLast]
  · intro index within
    rw [List.length_dropLast] at within
    rw [Contents.set_other (fits.element_ne_lengthCell (by omega)),
      List.getElem_dropLast]
    exact shown.elements index (by omega)

/-! ## Operations, call by call -/

theorem safe_writeSize (array : DynamicArray) (count : Nat)
    {causes : StoreError → Prop} {keeps : Contents → Prop}
    (kept : keeps contents)
    (keptAfter : keeps
      (contents.set array.lengthCell (Word.ofCount count))) :
    Layout.Safe causes keeps (array.writeSize count) contents
      (fun answer after => answer = () ∧
        after = contents.set array.lengthCell (Word.ofCount count)) := by
  unfold writeSize
  apply (Layout.safe_write _ _ kept keptAfter).bind
  rintro answer after keptLast ⟨_, rfl⟩
  exact Layout.Safe.pure keptLast ⟨rfl, rfl⟩

section Operations

variable {causes : StoreError → Prop} {keeps : Contents → Prop}
  (shown : array.Shows list contents) (fits : array.Fits capacity)
  (bounded : list.length ≤ capacity) (kept : keeps contents)

include shown fits bounded kept

theorem Shows.reads_size :
    Layout.Reads causes keeps array.size contents list.length := by
  have small : list.length < Word.countBound := by
    have counts := fits.counts
    omega
  unfold DynamicArray.size
  apply (Layout.reads_read array.lengthCell kept).bind
  rw [shown.size, Word.toCount?_ofCount small]
  exact Layout.Reads.pure kept

theorem Shows.reads_isEmpty :
    Layout.Reads causes keeps array.isEmpty contents
      (decide (list = [])) := by
  have answer : decide (list.length = 0) = decide (list = []) := by
    simp
  unfold isEmpty
  apply (shown.reads_size fits bounded kept).bind
  rw [answer]
  exact Layout.Reads.pure kept

theorem Shows.reads_readElement (within : index < list.length) :
    Layout.Reads causes keeps (array.readElement index) contents
      list[index] := by
  have read : Layout.Reads causes keeps (Layout.read (array.element index))
      contents (contents (array.element index)) :=
    Layout.reads_read _ kept
  rw [shown.elements index within] at read
  rw [readElement, fits.elementCell_eq (by omega)]
  exact (Layout.Reads.pure kept).bind read

theorem Shows.reads_checkIndex (within : index < list.length) :
    Layout.Reads causes keeps (array.checkIndex index) contents () := by
  unfold checkIndex
  apply (shown.reads_size fits bounded kept).bind
  rw [if_pos within]
  exact Layout.Reads.pure kept

theorem Shows.reads_get (within : index < list.length) :
    Layout.Reads causes keeps (array.get index) contents list[index] := by
  unfold get
  apply (shown.reads_checkIndex fits bounded kept within).bind
  exact shown.reads_readElement fits bounded kept within

theorem Shows.safe_set (within : index < list.length)
    (keptAfter : keeps (contents.set (array.element index) value)) :
    Layout.Safe causes keeps (array.set index value) contents
      (fun answer after => answer = () ∧
        after = contents.set (array.element index) value) := by
  unfold DynamicArray.set
  apply (shown.reads_checkIndex fits bounded kept within).bind
  rw [writeElement, fits.elementCell_eq (by omega)]
  apply (Layout.safe_write _ value kept keptAfter).bind
  rintro answer after keptLast ⟨_, rfl⟩
  exact Layout.Safe.pure keptLast ⟨rfl, rfl⟩

omit bounded in
theorem Shows.safe_append (room : list.length < capacity)
    (keptPlaced : keeps
      (contents.set (array.element list.length) value))
    (keptAfter : keeps ((contents.set (array.element list.length) value).set
      array.lengthCell (Word.ofCount (list.length + 1)))) :
    Layout.Safe causes keeps (array.append value) contents
      (fun answer after => answer = () ∧
        after = (contents.set (array.element list.length) value).set
          array.lengthCell (Word.ofCount (list.length + 1))) := by
  have counts := fits.counts
  unfold append
  apply (shown.reads_size fits (by omega) kept).bind
  rw [writeElement, fits.elementCell_eq room, Layout.sum_eq (by omega)]
  apply (Layout.safe_write _ value kept keptPlaced).bind
  rintro answer between _ ⟨_, rfl⟩
  exact array.safe_writeSize _ keptPlaced keptAfter

theorem Shows.safe_removeLast (occupied : list ≠ [])
    (keptShort : keeps (contents.set array.lengthCell
      (Word.ofCount (list.length - 1))))
    (keptAfter : keeps ((contents.set array.lengthCell
      (Word.ofCount (list.length - 1))).set
        (array.element (list.length - 1)) 0)) :
    Layout.Safe causes keeps array.removeLast contents
      (fun answer after => answer = list.getLast occupied ∧
        after = (contents.set array.lengthCell
          (Word.ofCount (list.length - 1))).set
            (array.element (list.length - 1)) 0) := by
  have positive : 0 < list.length := List.length_pos_iff.mpr occupied
  have last : (contents.set array.lengthCell
      (Word.ofCount (list.length - 1))) (array.element (list.length - 1)) =
        list.getLast occupied := by
    rw [Contents.set_other (fits.element_ne_lengthCell (by omega)),
      shown.elements _ (by omega), List.getLast_eq_getElem]
  unfold removeLast
  apply (shown.reads_size fits bounded kept).bind
  rw [if_neg (by omega), Layout.difference_eq positive]
  apply (Layout.Reads.pure kept).bind
  rw [fits.elementCell_eq (by omega)]
  apply (Layout.Reads.pure kept).bind
  apply (array.safe_writeSize _ kept keptShort).bind
  rintro answer between _ ⟨_, rfl⟩
  rw [← last]
  exact Layout.safe_write _ 0 keptShort keptAfter

end Operations

/-! ## What operations do to the carried list -/

theorem holds_iff_carries : array.Holds capacity list contents ↔
    array.Carries True capacity list contents := by
  constructor
  · exact fun holds => ⟨holds.bounded, holds.shown, fun _ => holds.empty⟩
  · exact fun carries =>
      ⟨carries.bounded, carries.shown, carries.empty trivial⟩

theorem Carries.untidy (carries : array.Carries tidy capacity list contents) :
    array.Carries False capacity list contents :=
  ⟨carries.bounded, carries.shown, False.elim⟩

theorem Carries.congr (carries : array.Carries tidy capacity list contents)
    (same : ∀ cell ∈ array.area capacity, after cell = contents cell) :
    array.Carries tidy capacity list after := by
  refine ⟨carries.bounded, carries.shown.congr carries.bounded same, ?_⟩
  intro clean index later within
  rw [same _ (element_mem_area within)]
  exact carries.empty clean index later within

theorem Carries.set_off (carries : array.Carries tidy capacity list contents)
    {cell : Cell} (outside : cell ∉ array.area capacity) (value : Word) :
    array.Carries tidy capacity list (contents.set cell value) := by
  apply carries.congr
  intro other inside
  apply Contents.set_other
  rintro rfl
  exact outside inside

section Changes

variable (carries : array.Carries tidy capacity list contents)
  (fits : array.Fits capacity)

include carries fits

theorem Carries.appended (room : list.length < capacity) (value : Word) :
    array.Carries tidy capacity (list ++ [value])
      ((contents.set (array.element list.length) value).set array.lengthCell
        (Word.ofCount (list.length + 1))) := by
  have length : (list ++ [value]).length = list.length + 1 := by simp
  refine ⟨by omega, ?_, ?_⟩
  · apply (carries.shown.set_after fits (Nat.le_refl _) room value).grow
      fits room
    exact Contents.set_same _ _ _
  · intro clean index later within
    rw [Contents.set_other (fits.element_ne_lengthCell within),
      Contents.set_other (fits.element_ne within room (by omega))]
    exact carries.empty clean index (by omega) within

theorem Carries.set_element (within : index < list.length) (value : Word) :
    array.Carries tidy capacity (list.set index value)
      (contents.set (array.element index) value) := by
  have bounded := carries.bounded
  refine ⟨by simpa using bounded,
    carries.shown.set_element fits bounded within value, ?_⟩
  intro clean other later otherWithin
  rw [List.length_set] at later
  rw [Contents.set_other
    (fits.element_ne otherWithin (by omega) (by omega))]
  exact carries.empty clean other later otherWithin

/-- Until its cell is emptied, the word that was dropped lies after the
list. -/
theorem Carries.shortened :
    array.Carries False capacity list.dropLast
      (contents.set array.lengthCell (Word.ofCount (list.length - 1))) := by
  have bounded := carries.bounded
  have length : list.dropLast.length = list.length - 1 :=
    List.length_dropLast
  exact ⟨by omega, carries.shown.shrink fits bounded, False.elim⟩

theorem Carries.dropped (occupied : list ≠ []) :
    array.Carries tidy capacity list.dropLast
      ((contents.set array.lengthCell (Word.ofCount (list.length - 1))).set
        (array.element (list.length - 1)) 0) := by
  have bounded := carries.bounded
  have positive : 0 < list.length := List.length_pos_iff.mpr occupied
  have length : list.dropLast.length = list.length - 1 :=
    List.length_dropLast
  refine ⟨by omega, ?_, ?_⟩
  · exact (carries.shown.shrink fits bounded).set_after fits (by omega)
      (by omega) 0
  · intro clean index later within
    by_cases last : index = list.length - 1
    · subst index
      exact Contents.set_same _ _ _
    · rw [Contents.set_other (fits.element_ne within (by omega) last),
        Contents.set_other (fits.element_ne_lengthCell within)]
      exact carries.empty clean index (by omega) within

/-- An array of zeros is emptied by its length. -/
theorem Carries.cleared (zeros : ∀ value ∈ list, value = 0) :
    array.Carries tidy capacity []
      (contents.set array.lengthCell (Word.ofCount 0)) := by
  refine ⟨Nat.zero_le _, ⟨Contents.set_same _ _ _, ?_⟩, ?_⟩
  · exact fun index within => absurd within (Nat.not_lt_zero index)
  · intro clean index _ within
    rw [Contents.set_other (fits.element_ne_lengthCell within)]
    by_cases listed : index < list.length
    · rw [carries.shown.elements index listed]
      exact zeros _ (List.getElem_mem listed)
    · exact carries.empty clean index (by omega) within

theorem Carries.append_achieves (room : list.length < capacity)
    (value : Word) :
    (array.append value).Achieves (array.area capacity) contents ()
      (array.Carries tidy capacity (list ++ [value])) := by
  apply (carries.shown.safe_append fits trivial room trivial
    trivial).runs_eq.achieves
  · exact ((Contents.SameOff.refl _ _).set (element_mem_area room) _).set
      (array.lengthCell_mem_area capacity) _
  · exact carries.appended fits room value

end Changes

end DynamicArray

end SlotStorage
