import SlotStorage.Proofs.Layout.ArrayCalls

/-!
# Changes of an array that fail

A change of an array makes several writes, and a store call may fail before
any of them.  The writes are ordered so that a reader then sees the old list
or, when the array shrinks, the new one.  What was written before the failure
is written again by the next attempt, which therefore ends in the very cells
that an undisturbed change leaves.
-/

namespace SlotStorage

namespace Action

variable {ε α : Type} {action : Action ε α} {before after last : Contents}

/-- From the later contents the action ends as from the earlier ones, with the
same answer and in the same cells. -/
def Retries (action : Action ε α) (before after : Contents) : Prop :=
  action.runOn Contents.backend after = action.runOn Contents.backend before

theorem Runs.retries {result : α} (first : action.Runs before result last)
    (again : action.Runs after result last) : action.Retries before after :=
  again.trans first.symm

end Action

namespace DynamicArray

/-- What a reader of the array sees: how many elements there are, and each of
them. -/
structure Seen (array : DynamicArray) (list : List Word)
    (contents : Contents) : Prop where
  size : array.size.Runs contents list.length contents
  elements : ∀ index (within : index < list.length),
    (array.get index).Runs contents list[index] contents
  beyond : ∀ index, list.length ≤ index → (array.get index).Fails contents
    (.indexOutOfRange index list.length) contents

variable {array : DynamicArray} {tidy : Prop} {capacity index : Nat}
  {list : List Word} {contents after : Contents} {value : Word}
  {causes : StoreError → Prop}

/-- Up to its own length an array has no cells after the list. -/
theorem Shows.carries (shown : array.Shows list contents)
    (full : list.length = capacity) :
    array.Carries tidy capacity list contents :=
  ⟨Nat.le_of_eq full, shown, fun _ _ later within => by omega⟩

theorem Shows.seen (shown : array.Shows list contents)
    (fits : array.Fits list.length) : array.Seen list contents := by
  have carries : array.Carries True list.length list contents :=
    shown.carries rfl
  refine ⟨carries.runs_size fits, fun index => carries.runs_get fits, ?_⟩
  intro index later
  exact (carries.checkIndex_fails fits (Nat.not_lt.mpr later)).bind

/-- All cells of an array without elements are empty, up to its capacity. -/
theorem Carries.eq_zero (carries : array.Carries True capacity [] contents)
    {cell : Cell} (inside : cell ∈ array.area capacity) :
    contents cell = 0 := by
  obtain ⟨offset, within, rfl⟩ := inside
  cases offset with
  | zero =>
      rw [Cell.shift_zero]
      exact carries.shown.size
  | succ index =>
      exact carries.empty trivial index (Nat.zero_le _)
        (Nat.lt_of_succ_lt_succ within)

/-! ## Where a change stops -/

section Stops

variable (shown : array.Shows list contents) (fits : array.Fits list.length)

include shown fits

/-- An element that was written but not counted lies after the list. -/
theorem Shows.stops_append (small : list.length + 1 < Word.countBound) :
    Layout.Stops causes
      (fun after => after = contents ∨ array.Fits (list.length + 1) ∧
        after = contents.set (array.element list.length) value)
      (array.append value) contents (fun _ _ => True) := by
  unfold append
  apply (shown.reads_size fits (Nat.le_refl _) (.inl rfl)).stops_bind
  rw [writeElement, Layout.sum_eq small]
  by_cases reaches : array.base.Reaches (list.length + 1)
  · have larger : array.Fits (list.length + 1) := ⟨reaches, small⟩
    rw [larger.elementCell_eq (Nat.lt_succ_self _)]
    apply (Layout.stops_write _ value (.inl rfl)).bind
    rintro _ between ⟨_, rfl⟩
    apply (Layout.stops_write _ _ (.inr ⟨larger, rfl⟩)).bind
    exact fun _ _ _ => Layout.Stops.pure trivial
  · rw [elementCell_of_not_reaches reaches]
    exact Layout.Stops.throw _ (.inl rfl)

theorem Shows.stops_set :
    Layout.Stops causes (Eq contents) (array.set index value) contents
      (fun _ _ => True) := by
  unfold DynamicArray.set
  by_cases within : index < list.length
  · apply (shown.reads_checkIndex fits (Nat.le_refl _) rfl within).stops_bind
    rw [writeElement, fits.elementCell_eq within]
    apply (Layout.stops_write _ value rfl).bind
    exact fun _ _ _ => Layout.Stops.pure trivial
  · unfold checkIndex
    rw [bind_assoc]
    apply (shown.reads_size fits (Nat.le_refl _) rfl).stops_bind
    rw [if_neg within]
    exact Layout.Stops.throw _ rfl

/-- An element that is not counted any more may still lie in its cell. -/
theorem Shows.stops_removeLast :
    Layout.Stops causes
      (fun after => after = contents ∨ list ≠ [] ∧
        after = contents.set array.lengthCell
          (Word.ofCount (list.length - 1)))
      array.removeLast contents (fun _ _ => True) := by
  unfold removeLast
  apply (shown.reads_size fits (Nat.le_refl _) (.inl rfl)).stops_bind
  by_cases empty : list.length = 0
  · rw [if_pos empty]
    exact Layout.Stops.throw _ (.inl rfl)
  · have occupied : list ≠ [] := fun none => empty (by rw [none]; rfl)
    rw [if_neg empty, Layout.difference_eq (Nat.pos_of_ne_zero empty),
      pure_bind, fits.elementCell_eq (by omega), pure_bind, writeSize,
      bind_assoc]
    apply (Layout.stops_write _ _ (.inl rfl)).bind
    rintro _ between ⟨_, rfl⟩
    exact (Layout.stops_write _ 0 (.inr ⟨occupied, rfl⟩)).weaken

/-- The elements are emptied from the first one on while all are counted. -/
theorem Shows.stops_clear :
    Layout.Stops causes
      (fun after => ∃ count ≤ list.length,
        contents.SameOff (array.area list.length) after ∧
          array.Shows (blanked count list) after)
      array.clear contents (fun _ _ => True) := by
  have carries : array.Carries False list.length list contents :=
    shown.carries rfl
  have start : ∃ count ≤ list.length,
      contents.SameOff (array.area list.length) contents ∧
        array.Shows (blanked count list) contents :=
    ⟨0, Nat.zero_le _, .refl _ _, shown⟩
  unfold clear
  apply (shown.reads_size fits (Nat.le_refl _) start).stops_bind
  apply (carries.safe_erase fits fun count within between same reached =>
    ⟨count, within, same, reached.shown⟩).stops.bind
  rintro _ between ⟨same, erased⟩
  apply (Layout.stops_write _ _ ⟨list.length, Nat.le_refl _, same,
    erased.shown⟩).bind
  exact fun _ _ _ => Layout.Stops.pure trivial

end Stops

/-! ## What the next attempt does -/

section Attempts

variable (shown : array.Shows list contents)

include shown

theorem Shows.runs_append (fits : array.Fits capacity)
    (room : list.length < capacity) (value : Word) :
    (array.append value).Runs contents ()
      ((contents.set (array.element list.length) value).set array.lengthCell
        (Word.ofCount (list.length + 1))) :=
  (shown.safe_append fits trivial room trivial trivial).runs_eq

/-- Writing the element again does not show in the cells. -/
theorem Shows.retries_append (fits : array.Fits (list.length + 1)) :
    (array.append value).Retries contents
      (contents.set (array.element list.length) value) := by
  have room := Nat.lt_succ_self list.length
  have placed := shown.set_after fits (Nat.le_refl _) room value
  have again := placed.runs_append fits room value
  rw [Contents.set_set] at again
  exact (shown.runs_append fits room value).retries again

/-- Clearing leaves the same cells, however many elements are empty by
then. -/
theorem Shows.retries_clear (fits : array.Fits list.length) {count : Nat}
    (within : count ≤ list.length)
    (same : contents.SameOff (array.area list.length) after)
    (blank : array.Shows (blanked count list) after) :
    array.clear.Retries contents after := by
  have carries : array.Carries True list.length list contents :=
    shown.carries rfl
  have carriesBlank : array.Carries True list.length (blanked count list)
      after := blank.carries (length_blanked within)
  obtain ⟨first, runs, firstSame, firstEmpty⟩ := carries.clear_achieves fits
  obtain ⟨second, runsAgain, secondSame, secondEmpty⟩ :=
    carriesBlank.clear_achieves fits
  have cells : second = first := by
    funext cell
    by_cases inside : cell ∈ array.area list.length
    · rw [secondEmpty.eq_zero inside, firstEmpty.eq_zero inside]
    · rw [secondSame cell inside, same cell inside, firstSame cell inside]
  rw [cells] at runsAgain
  exact runs.retries runsAgain

end Attempts

/-- A removal that was stopped before its last write: a reader sees the shorter
list, and against an undisturbed removal only the word after that list
differs, which the next element to be appended overwrites. -/
structure Stale (array : DynamicArray) (list : List Word)
    (before after : Contents) : Prop where
  occupied : list ≠ []
  seen : array.Seen list.dropLast after
  undisturbed : ∃ done,
    array.removeLast.Runs before (list.getLast occupied) done ∧
    after = done.set (array.element list.dropLast.length)
      (list.getLast occupied) ∧
    ∀ value, ∃ last, (array.append value).Runs done () last ∧
      (array.append value).Runs after () last

theorem Shows.stale (shown : array.Shows list contents)
    (fits : array.Fits list.length) (occupied : list ≠ []) :
    array.Stale list contents
      (contents.set array.lengthCell (Word.ofCount (list.length - 1))) := by
  have positive : 0 < list.length := List.length_pos_iff.mpr occupied
  have length : list.dropLast.length = list.length - 1 :=
    List.length_dropLast
  have shorter := shown.shrink fits (Nat.le_refl _)
  have removed : array.removeLast.Runs contents (list.getLast occupied) _ :=
    (shown.safe_removeLast fits (Nat.le_refl _) trivial occupied trivial
      trivial).runs_eq
  refine ⟨occupied, shorter.seen (fits.mono (by omega)), _, removed, ?_, ?_⟩
  · rw [length, Contents.set_set]
    apply (Contents.set_eq_self _).symm
    rw [Contents.set_other (fits.element_ne_lengthCell (by omega)),
      shown.elements _ (by omega), List.getLast_eq_getElem]
  · intro value
    have room : list.dropLast.length < list.length := by omega
    rw [← length] at shorter ⊢
    have emptied := shorter.set_after fits (Nat.le_refl _) room 0
    have appended := emptied.runs_append fits room value
    rw [Contents.set_set] at appended
    exact ⟨_, appended, shorter.runs_append fits room value⟩

/-- Whichever store call of a change fails, a reader sees the list as it was,
or without its last element after a removal, or with some of its first elements
empty after a clearing.  A change that is made again, other than a removal,
ends as if it had not been disturbed. -/
theorem failed_changes_atomic (array : DynamicArray) (list : List Word)
    (plan : FaultPlan) (start : Counted Contents) (after : Contents)
    (shown : array.Shows list start.state)
    (reaches : array.base.Reaches list.length)
    (small : list.length + 1 < Word.countBound) :
    (∀ value, (array.append value).Breaks plan start after →
      array.Seen list after ∧
        (array.append value).Retries start.state after) ∧
    (∀ index value, (array.set index value).Breaks plan start after →
      array.Seen list after ∧
        (array.set index value).Retries start.state after) ∧
    (array.removeLast.Breaks plan start after →
      array.Seen list after ∧ after = start.state ∨
        array.Stale list start.state after) ∧
    (array.clear.Breaks plan start after →
      ∃ count ≤ list.length, array.Seen (blanked count list) after ∧
        array.clear.Retries start.state after) := by
  have fits : array.Fits list.length := ⟨reaches, by omega⟩
  have seen := shown.seen fits
  refine ⟨?_, ?_, ?_, ?_⟩
  · intro value breaks
    rcases (shown.stops_append fits small).stopped_of_breaks breaks with
      rfl | ⟨larger, rfl⟩
    · exact ⟨seen, rfl⟩
    · have placed := shown.set_after larger (Nat.le_refl _)
        (Nat.lt_succ_self _) value
      exact ⟨placed.seen fits, shown.retries_append larger⟩
  · intro index value breaks
    obtain rfl := (shown.stops_set fits).stopped_of_breaks breaks
    exact ⟨seen, rfl⟩
  · intro breaks
    rcases (shown.stops_removeLast fits).stopped_of_breaks breaks with
      rfl | ⟨occupied, rfl⟩
    · exact .inl ⟨seen, rfl⟩
    · exact .inr (shown.stale fits occupied)
  · intro breaks
    obtain ⟨count, within, same, blank⟩ :=
      (shown.stops_clear fits).stopped_of_breaks breaks
    have length := length_blanked within
    refine ⟨count, within, blank.seen (by rwa [length]), ?_⟩
    exact shown.retries_clear fits within same blank

/-- Of the two elements 7 and 8 the last one is removed, but the second write
fails: the reader sees 7 alone, and 8 is left behind. -/
theorem failed_changes_atomic_stale :
    let array : DynamicArray := ⟨.storageProcessor, ⟨5⟩⟩
    let contents := ((Contents.empty.set array.lengthCell 2).set
      (array.element 0) 7).set (array.element 1) 8
    let shortened := contents.set array.lengthCell 1
    let plan := FaultPlan.writesAfter 1 (Access.failure "gone")
    array.Shows [7, 8] contents ∧ array.base.Reaches 2 ∧
    3 < Word.countBound ∧
    array.removeLast.Breaks plan ⟨contents, 0, 0⟩ shortened ∧
    array.Stale [7, 8] contents shortened := by
  intro array contents shortened plan
  have shown : array.Shows [7, 8] contents := by
    refine ⟨by decide +kernel, ?_⟩
    intro index within
    match index, within with
    | 0, _ => rfl
    | 1, _ => rfl
  have breaks : array.removeLast.Breaks plan ⟨contents, 0, 0⟩ shortened :=
    ⟨_, _, rfl, rfl⟩
  have changed : shortened ≠ contents := fun same =>
    absurd (congrFun same array.lengthCell) (by decide +kernel)
  refine ⟨shown, by decide, by decide, breaks, ?_⟩
  exact ((failed_changes_atomic array [7, 8] plan ⟨contents, 0, 0⟩ shortened
    shown (by decide) (by decide)).2.2.1 breaks).resolve_left
      fun unchanged => changed unchanged.2

end DynamicArray

end SlotStorage
