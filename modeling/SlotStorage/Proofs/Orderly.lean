import SlotStorage.Layout.Blob
import SlotStorage.Layout.Set
import SlotStorage.Proofs.Confined
import SlotStorage.Proofs.Reports

/-!
# Orderly operations

An operation is orderly in some namespaces if all its calls are for cells of
them and the first call that fails ends it with that failure.  Every operation
of a layout is orderly in the namespace of the layout: the addresses depend on
what the cells hold, but the namespace is never computed, and no operation
looks at a failure.
-/

namespace SlotStorage

namespace Program

variable {α β : Type} {spaces : Set Namespace} {told : StoreError → α}
  {expected : α → Prop}

/-- All calls are for cells of the namespaces, a call that fails makes the
result, and any result is as it should be. -/
structure Orderly (spaces : Set Namespace) (told : StoreError → α)
    (expected : α → Prop) (program : Program α) : Prop where
  yields : program.Yields spaces expected
  reports : program.Reports told

theorem Orderly.confined {program : Program α}
    (orderly : program.Orderly spaces told expected) :
    program.Confined spaces :=
  orderly.yields.mono (Set.Subset.refl _) fun _ _ => trivial

theorem Orderly.weaken {program : Program α}
    (orderly : program.Orderly spaces told expected) :
    program.Orderly spaces told fun _ => True :=
  ⟨orderly.confined, orderly.reports⟩

/-- The second program has to pass the failures of the first one on. -/
theorem Orderly.bind {passed : StoreError → β} {goal : β → Prop}
    {program : Program α} {next : α → Program β}
    (first : program.Orderly spaces told expected)
    (passes : ∀ cause, next (told cause) = .done (passed cause))
    (second : ∀ result, expected result →
      (next result).Orderly spaces passed goal) :
    (program >>= next).Orderly spaces passed goal := by
  obtain ⟨yields, reports⟩ := first
  refine ⟨yields.bind fun result reached => (second result reached).yields, ?_⟩
  change (program.bind next).Reports passed
  -- A call of the first program fails only if the first program then ends,
  -- and the second one ends on what it told.
  induction program with
  | done result => exact (second result yields).reports
  | read cell resume induction =>
      refine ⟨?_, fun word => induction _ (yields.2 _) (reports.2 word)⟩
      intro cause
      change (resume (.error cause)).bind next = .done (passed cause)
      rw [reports.1 cause]
      exact passes cause
  | write cell value resume induction =>
      refine ⟨?_, fun word => induction _ (yields.2 _) (reports.2 word)⟩
      intro cause
      change (resume (.error cause)).bind next = .done (passed cause)
      rw [reports.1 cause]
      exact passes cause

end Program

namespace Action

variable {ε α β : Type} {report : StoreError → ε} {spaces : Set Namespace}

/-- All calls are for cells of the namespaces, and the first one that fails
ends the action with its failure. -/
def Orderly (report : StoreError → ε) (spaces : Set Namespace)
    (action : Action ε α) : Prop :=
  action.run.Orderly spaces (fun cause => .error (report cause))
    fun _ => True

theorem Orderly.pure (result : α) :
    Orderly report spaces (Pure.pure result : Action ε α) :=
  ⟨trivial, trivial⟩

theorem Orderly.throw (error : ε) :
    Orderly report spaces (MonadExcept.throw error : Action ε α) :=
  ⟨trivial, trivial⟩

theorem Orderly.bind {action : Action ε α} {next : α → Action ε β}
    (first : Orderly report spaces action)
    (second : ∀ result, Orderly report spaces (next result)) :
    Orderly report spaces (action >>= next) := by
  change (action.run >>= ExceptT.bindCont next).Orderly spaces _ _
  apply Program.Orderly.bind first
  · exact fun cause => rfl
  · rintro (error | result) _
    · exact ⟨trivial, trivial⟩
    · exact second result

/-- A program that tells of failures in its result is followed by an action
that throws them. -/
theorem Orderly.lift_bind {program : Program α} {next : α → Action ε β}
    {told : StoreError → α} {middle : α → Prop}
    (first : program.Orderly spaces told middle)
    (throws : ∀ cause, next (told cause) = MonadExcept.throw (report cause))
    (second : ∀ result, middle result →
      Orderly report spaces (next result)) :
    Orderly report spaces ((ExceptT.lift program : Action ε α) >>= next) := by
  unfold Orderly
  rw [ExceptT.run_bind_lift]
  apply Program.Orderly.bind first
  · intro cause
    rw [throws cause]
    rfl
  · exact second

end Action

namespace Layout

variable {α β : Type} {spaces : Set Namespace}

/-- All calls are for cells of the namespaces, and the first one that fails
ends the operation with its failure. -/
abbrev Orderly (spaces : Set Namespace) (action : Layout α) : Prop :=
  Action.Orderly .store spaces action

theorem orderly_read {cell : Cell} (inside : cell.space ∈ spaces) :
    (Layout.read cell).Orderly spaces :=
  ⟨⟨inside, fun _ => trivial⟩, fun _ => rfl, fun _ => trivial⟩

theorem orderly_write {cell : Cell} (inside : cell.space ∈ spaces)
    (value : Word) : (Layout.write cell value).Orderly spaces :=
  ⟨⟨inside, fun _ => trivial⟩, fun _ => rfl, fun _ => trivial⟩

theorem orderly_require (error : LayoutError) (value : Option α) :
    (Layout.require error value).Orderly spaces := by
  cases value with
  | none => exact .throw error
  | some value => exact .pure value

theorem orderly_sum (left right : Nat) :
    (Layout.sum left right).Orderly spaces := by
  unfold Layout.sum
  split
  · exact .pure _
  · exact .throw _

theorem orderly_difference (left right : Nat) :
    (Layout.difference left right).Orderly spaces := by
  unfold Layout.difference
  split
  · exact .pure _
  · exact .throw _

theorem orderly_firstBytes (count : Nat) (bytes : Bytes) :
    (Layout.firstBytes count bytes).Orderly spaces := by
  unfold Layout.firstBytes
  split
  · exact .pure _
  · exact .throw _

end Layout

/-! ## Arrays -/

namespace DynamicArray

variable {α : Type} {spaces : Set Namespace} {array : DynamicArray}

/-- The cell of an element lies in the namespace of the array. -/
theorem elementCell_bind (array : DynamicArray) (index : Nat)
    (next : Cell → Layout α) :
    array.elementCell index >>= next =
      Layout.require (.slotOverflow array.base)
        (array.base.add? (index + 1)) >>= fun slot =>
          next ⟨array.space, slot⟩ := by
  simp only [elementCell, bind_assoc, pure_bind]

section Operations

variable (inside : array.space ∈ spaces)

include inside

theorem orderly_size : array.size.Orderly spaces :=
  (Layout.orderly_read inside).bind fun _ => Layout.orderly_require _ _

theorem orderly_isEmpty : array.isEmpty.Orderly spaces :=
  (orderly_size inside).bind fun _ => .pure _

theorem orderly_writeSize (count : Nat) :
    (array.writeSize count).Orderly spaces :=
  (Layout.orderly_write inside _).bind fun _ => .pure _

theorem orderly_checkIndex (index : Nat) :
    (array.checkIndex index).Orderly spaces := by
  apply (orderly_size inside).bind
  intro size
  split
  · exact .pure _
  · exact .throw _

theorem orderly_readElement (index : Nat) :
    (array.readElement index).Orderly spaces := by
  unfold readElement
  rw [elementCell_bind]
  exact (Layout.orderly_require _ _).bind fun _ =>
    Layout.orderly_read inside

theorem orderly_writeElement (index : Nat) (value : Word) :
    (array.writeElement index value).Orderly spaces := by
  unfold writeElement
  rw [elementCell_bind]
  exact (Layout.orderly_require _ _).bind fun _ =>
    Layout.orderly_write inside value

theorem orderly_get (index : Nat) : (array.get index).Orderly spaces :=
  (orderly_checkIndex inside index).bind fun _ =>
    orderly_readElement inside index

theorem orderly_last : array.last.Orderly spaces := by
  apply (orderly_size inside).bind
  intro size
  split
  · exact .pure _
  · apply (Layout.orderly_difference _ _).bind
    intro index
    exact (orderly_readElement inside index).bind fun _ => .pure _

theorem orderly_append (value : Word) :
    (array.append value).Orderly spaces := by
  apply (orderly_size inside).bind
  intro size
  apply (orderly_writeElement inside size value).bind
  intro _
  exact (Layout.orderly_sum _ _).bind fun _ => orderly_writeSize inside _

theorem orderly_set (index : Nat) (value : Word) :
    (array.set index value).Orderly spaces := by
  apply (orderly_checkIndex inside index).bind
  intro _
  exact (orderly_writeElement inside index value).bind fun _ => .pure _

theorem orderly_removeLast : array.removeLast.Orderly spaces := by
  apply (orderly_size inside).bind
  intro size
  split
  · exact .throw _
  · apply (Layout.orderly_difference _ _).bind
    intro remaining
    rw [elementCell_bind]
    apply (Layout.orderly_require _ _).bind
    intro slot
    exact (orderly_writeSize inside remaining).bind fun _ =>
      Layout.orderly_write inside 0

theorem orderly_eraseFrom (index count : Nat) :
    (array.eraseFrom index count).Orderly spaces := by
  induction count generalizing index with
  | zero => exact .pure _
  | succ count induction =>
      exact (orderly_writeElement inside index 0).bind fun _ =>
        induction (index + 1)

theorem orderly_clear : array.clear.Orderly spaces := by
  apply (orderly_size inside).bind
  intro size
  exact (orderly_eraseFrom inside 0 size).bind fun _ =>
    orderly_writeSize inside 0

end Operations

end DynamicArray

namespace Cursor

variable {α : Type} {spaces : Set Namespace} {cursor : Cursor}
  (inside : cursor.array.space ∈ spaces)

include inside

theorem orderly_fetch : cursor.fetch.Orderly spaces := by
  apply (DynamicArray.orderly_size inside).bind
  intro size
  split
  · exact .pure _
  · apply (DynamicArray.orderly_readElement inside _).bind
    intro value
    exact (Layout.orderly_sum _ _).bind fun _ => .pure _

/-- A step gives a failure as its item, and it stays in the array. -/
theorem orderly_step : cursor.step.Orderly spaces
    (fun cause =>
      (some (.error (.store cause)), { cursor with failed := true }))
    fun outcome => outcome.2.array = cursor.array := by
  unfold step
  split
  · exact ⟨rfl, trivial⟩
  · apply Program.Orderly.bind (orderly_fetch inside)
    · exact fun cause => rfl
    · rintro (error | _ | ⟨value, index⟩) _ <;> exact ⟨rfl, trivial⟩

theorem orderly_visit {action : Word → Layout α}
    (each : ∀ value, (action value).Orderly spaces) (steps : Nat) :
    (cursor.visit action steps).Orderly spaces := by
  induction steps generalizing cursor with
  | zero => exact .throw _
  | succ steps induction =>
      apply Action.Orderly.lift_bind (orderly_step inside)
      · exact fun cause => rfl
      · rintro ⟨item, later⟩ same
        have laterInside : later.array.space ∈ spaces := by
          rwa [show later.array = cursor.array from same]
        match item with
        | none => exact .pure _
        | some (.error error) => exact .throw _
        | some (.ok value) =>
            apply (each value).bind
            intro result
            exact (induction laterInside).bind fun _ => .pure _

theorem orderly_forEach {action : Word → Layout α}
    (each : ∀ value, (action value).Orderly spaces) :
    (cursor.forEach action).Orderly spaces :=
  orderly_visit inside each Word.countBound

end Cursor

theorem DynamicArray.orderly_toList {spaces : Set Namespace}
    {array : DynamicArray} (inside : array.space ∈ spaces) :
    array.toList.Orderly spaces :=
  Cursor.orderly_forEach inside fun _ => .pure _

/-! ## Indexes and sets -/

namespace SaltedIndex

variable {spaces : Set Namespace} {index : SaltedIndex}
  (inside : index.space ∈ spaces)

include inside

theorem orderly_get (key : Word) : (index.get key).Orderly spaces :=
  Layout.orderly_read inside

theorem orderly_set (key value : Word) :
    (index.set key value).Orderly spaces :=
  Layout.orderly_write inside value

end SaltedIndex

namespace EnumerableSet

/-- Both parts of the set lie in the namespaces. -/
structure Inside (set : EnumerableSet) (spaces : Set Namespace) : Prop where
  members : set.members.space ∈ spaces
  positions : set.positions.space ∈ spaces

variable {spaces : Set Namespace} {set : EnumerableSet}

theorem inside_ofKey {space : Namespace} (inside : space ∈ spaces)
    (hasher : Hasher) (setKey : Slot) :
    (ofKey hasher space setKey).Inside spaces :=
  ⟨inside, inside⟩

section Operations

variable (inside : set.Inside spaces)

include inside

theorem orderly_contains (value : Word) :
    (set.contains value).Orderly spaces :=
  (SaltedIndex.orderly_get inside.positions value).bind fun _ => .pure _

theorem orderly_add (value : Word) : (set.add value).Orderly spaces := by
  apply (orderly_contains inside value).bind
  intro present
  split
  · exact .pure _
  · apply (DynamicArray.orderly_append inside.members value).bind
    intro _
    apply (DynamicArray.orderly_size inside.members).bind
    intro position
    exact (SaltedIndex.orderly_set inside.positions value _).bind fun _ =>
      .pure _

omit inside in
theorem orderly_indexOf (value position : Word) :
    (set.indexOf value position).Orderly spaces :=
  (Layout.orderly_require _ _).bind fun _ => Layout.orderly_difference _ _

theorem orderly_remove (value : Word) :
    (set.remove value).Orderly spaces := by
  apply (SaltedIndex.orderly_get inside.positions value).bind
  intro position
  split
  · exact .pure _
  · apply (orderly_indexOf value position).bind
    intro index
    apply (DynamicArray.orderly_size inside.members).bind
    intro size
    split
    · exact .throw _
    · apply (Layout.orderly_difference _ _).bind
      intro lastIndex
      apply (DynamicArray.orderly_get inside.members lastIndex).bind
      intro last
      apply (SaltedIndex.orderly_set inside.positions value 0).bind
      intro _
      have shortened : Layout.Orderly spaces (do
          let _ ← set.members.removeLast
          return true) :=
        (DynamicArray.orderly_removeLast inside.members).bind fun _ =>
          .pure _
      split
      · apply (DynamicArray.orderly_set inside.members index last).bind
        intro _
        apply (Layout.orderly_sum _ _).bind
        intro place
        exact (SaltedIndex.orderly_set inside.positions last _).bind fun _ =>
          shortened
      · exact shortened

theorem orderly_size : set.size.Orderly spaces :=
  DynamicArray.orderly_size inside.members

theorem orderly_isEmpty : set.isEmpty.Orderly spaces :=
  DynamicArray.orderly_isEmpty inside.members

theorem orderly_toList : set.toList.Orderly spaces :=
  DynamicArray.orderly_toList inside.members

theorem orderly_clear : set.clear.Orderly spaces := by
  have forgets : ∀ member, (set.positions.set member 0).Orderly spaces :=
    fun member => SaltedIndex.orderly_set inside.positions member 0
  have forgotten : (set.cursor.forEach fun member =>
      set.positions.set member 0).Orderly spaces :=
    Cursor.orderly_forEach inside.members forgets
  exact forgotten.bind fun _ => DynamicArray.orderly_clear inside.members

end Operations

end EnumerableSet

/-! ## Blobs -/

namespace Blob

variable {α : Type} {spaces : Set Namespace} {blob : Blob}

/-- The cells of a blob lie in its namespace. -/
theorem cellAt_bind (blob : Blob) (offset : Nat) (next : Cell → Layout α) :
    blob.cellAt offset >>= next =
      Layout.require (.slotOverflow blob.key) (blob.key.add? offset) >>=
        fun slot => next ⟨blob.space, slot⟩ := by
  simp only [cellAt, bind_assoc, pure_bind]

section Operations

variable (inside : blob.space ∈ spaces)

include inside

theorem orderly_writeFrom (offset : Nat) (words : List Word) :
    (blob.writeFrom offset words).Orderly spaces := by
  induction words generalizing offset with
  | nil => exact .pure _
  | cons word words induction =>
      unfold writeFrom
      rw [cellAt_bind]
      apply (Layout.orderly_require _ _).bind
      intro slot
      exact (Layout.orderly_write inside word).bind fun _ =>
        induction (offset + 1)

theorem orderly_eraseData (count : Nat) :
    (blob.eraseData count).Orderly spaces := by
  induction count with
  | zero => exact .pure _
  | succ count induction =>
      unfold eraseData
      rw [cellAt_bind]
      apply (Layout.orderly_require _ _).bind
      intro slot
      exact (Layout.orderly_write inside 0).bind fun _ => induction

theorem orderly_readFrom (count offset length : Nat) :
    (blob.readFrom count offset length).Orderly spaces := by
  induction count generalizing offset length with
  | zero => exact .pure _
  | succ count induction =>
      unfold readFrom
      rw [cellAt_bind]
      apply (Layout.orderly_require _ _).bind
      intro slot
      apply (Layout.orderly_read inside).bind
      intro word
      apply (Layout.orderly_firstBytes _ _).bind
      intro bytes
      apply (Layout.orderly_difference _ _).bind
      intro left
      exact (induction (offset + 1) left).bind fun _ => .pure _

theorem orderly_delete : blob.delete.Orderly spaces := by
  apply (Layout.orderly_read inside).bind
  intro word
  split
  · exact .pure _
  · apply (Layout.orderly_require _ _).bind
    intro head
    apply (orderly_eraseData inside _).bind
    intro _
    exact (Layout.orderly_write inside 0).bind fun _ => .pure _

theorem orderly_set (bytes : Bytes) : (blob.set bytes).Orderly spaces := by
  apply (Layout.orderly_difference _ _).bind
  intro last
  rw [cellAt_bind]
  apply (Layout.orderly_require _ _).bind
  intro slot
  exact (orderly_delete inside).bind fun _ => orderly_writeFrom inside 0 _

theorem orderly_get : blob.get.Orderly spaces := by
  apply (Layout.orderly_read inside).bind
  intro word
  apply (Layout.orderly_require _ _).bind
  intro head
  cases head with
  | short length => exact Layout.orderly_firstBytes _ _
  | long length => exact orderly_readFrom inside _ _ _

end Operations

end Blob

end SlotStorage
