import SlotStorage.Proofs.Layout.Set

/-!
# Arrays and sets on any contents

An array need not stand for a list: its length word may be larger than any
count, and the elements that it claims may lie beyond the last slot.  Each part
of an operation is followed from any contents.  It finds what the cells hold,
or ends with an error, and what holds where an error occurs is left to those
who allow it.
-/

namespace SlotStorage

namespace DynamicArray

/-- The number in the length cell, which may be too large for a count. -/
def claimed (array : DynamicArray) (contents : Contents) : Nat :=
  (contents array.lengthCell).toNat

variable {array : DynamicArray} {index : Nat} {contents : Contents}
  {value : Word}

theorem element_ne_lengthCell (reaches : array.base.Reaches (index + 1)) :
    array.element index ≠ array.lengthCell := by
  have different : array.lengthCell.shift (index + 1) ≠
      array.lengthCell.shift 0 :=
    Cell.shift_ne (index + 1) reaches (by omega) (by omega) (by omega)
  simpa [element] using different

theorem claimed_set_length {count : Nat}
    (small : count < Word.countBound) :
    array.claimed (contents.set array.lengthCell (Word.ofCount count)) =
      count := by
  rw [claimed, Contents.set_same, Word.toNat_ofCount small]

theorem claimed_set_element (reaches : array.base.Reaches (index + 1)) :
    array.claimed (contents.set (array.element index) value) =
      array.claimed contents := by
  rw [claimed, Contents.set_other (element_ne_lengthCell reaches).symm]
  rfl

/-- Whatever cell a count is written to, it is at most seen as the length. -/
theorem claimed_set_count (array : DynamicArray) (contents : Contents)
    (cell : Cell) {count : Nat} (small : count < Word.countBound) :
    array.claimed (contents.set cell (Word.ofCount count)) =
        array.claimed contents ∨
      array.claimed (contents.set cell (Word.ofCount count)) = count := by
  by_cases same : cell = array.lengthCell
  · rw [same]
    exact .inr (claimed_set_length small)
  · exact .inl (congrArg BitVec.toNat
      (Contents.set_other (Ne.symm same) _ _))

section Outcomes

variable {causes : StoreError → Prop}
  {allowed : LayoutError → Contents → Prop} {size : Nat}
  (spared : ∀ cause, causes cause → allowed (.store cause) contents)
  (claims : array.claimed contents = size)
  (corrupt : ¬ size < Word.countBound →
    allowed (.corruptLength array.base) contents)
  (unreached : ¬ array.base.Reaches (index + 1) →
    allowed (.slotOverflow array.base) contents)

include unreached in
theorem concludes_elementCell :
    Layout.Concludes causes allowed (array.elementCell index) contents
      (fun cell after => array.base.Reaches (index + 1) ∧
        cell = array.element index ∧ after = contents) := by
  unfold elementCell
  by_cases reaches : array.base.Reaches (index + 1)
  · rw [Slot.add?_of_reaches reaches]
    exact Layout.Concludes.pure ⟨reaches, rfl, rfl⟩
  · rw [Slot.add?_of_not_reaches reaches]
    exact Layout.Concludes.throw (unreached reaches)

include spared

include claims corrupt in
theorem concludes_size :
    Layout.Concludes causes allowed array.size contents
      (fun found after => found = size ∧ size < Word.countBound ∧
        after = contents) := by
  subst claims
  apply (Layout.concludes_read array.lengthCell spared).bind
  rintro _ _ ⟨rfl, rfl⟩
  unfold Word.toCount?
  split
  next small => exact Layout.Concludes.pure ⟨rfl, small, rfl⟩
  next large => exact Layout.Concludes.throw (corrupt large)

include unreached in
theorem concludes_readElement :
    Layout.Concludes causes allowed (array.readElement index) contents
      (fun word after => array.base.Reaches (index + 1) ∧
        word = contents (array.element index) ∧ after = contents) := by
  apply (concludes_elementCell unreached).bind
  rintro _ _ ⟨reaches, rfl, rfl⟩
  exact (Layout.concludes_read _ spared).mono
    fun _ _ found => ⟨reaches, found⟩

include unreached in
theorem concludes_writeElement (value : Word) :
    Layout.Concludes causes allowed (array.writeElement index value) contents
      (fun _ after => array.base.Reaches (index + 1) ∧
        after = contents.set (array.element index) value) := by
  apply (concludes_elementCell unreached).bind
  rintro _ _ ⟨reaches, rfl, rfl⟩
  exact (Layout.concludes_write _ value spared).mono
    fun _ _ written => ⟨reaches, written.2⟩

theorem concludes_writeSize (count : Nat) :
    Layout.Concludes causes allowed (array.writeSize count) contents
      (fun _ after =>
        after = contents.set array.lengthCell (Word.ofCount count)) := by
  apply (Layout.concludes_write array.lengthCell (Word.ofCount count)
    spared).bind
  rintro _ _ ⟨rfl, rfl⟩
  exact Layout.Concludes.pure rfl

section Elements

variable
  (outside : ¬ index < size →
    allowed (.indexOutOfRange index size) contents)
  (overflows : index < size → ¬ array.base.Reaches (index + 1) →
    allowed (.slotOverflow array.base) contents)

include claims corrupt outside

theorem concludes_checkIndex :
    Layout.Concludes causes allowed (array.checkIndex index) contents
      (fun _ after => index < size ∧ size < Word.countBound ∧
        after = contents) := by
  apply (concludes_size spared claims corrupt).bind
  rintro _ contents ⟨rfl, small, rfl⟩
  split
  next within => exact Layout.Concludes.pure ⟨within, small, rfl⟩
  next outer => exact Layout.Concludes.throw (outside outer)

include overflows

theorem concludes_get :
    Layout.Concludes causes allowed (array.get index) contents
      (fun word after => array.base.Reaches (index + 1) ∧
        word = contents (array.element index) ∧ after = contents) := by
  apply (concludes_checkIndex spared claims corrupt outside).bind
  rintro _ contents ⟨within, _, rfl⟩
  exact concludes_readElement spared (overflows within)

theorem concludes_set (value : Word) :
    Layout.Concludes causes allowed (array.set index value) contents
      (fun _ after => index < size ∧ size < Word.countBound ∧
        after = contents.set (array.element index) value) := by
  apply (concludes_checkIndex spared claims corrupt outside).bind
  rintro _ contents ⟨within, small, rfl⟩
  apply (concludes_writeElement spared (overflows within) value).bind
  rintro _ _ ⟨_, rfl⟩
  exact Layout.Concludes.pure ⟨within, small, rfl⟩

end Elements

end Outcomes

section Operations

variable {causes : StoreError → Prop}
  {allowed : LayoutError → Contents → Prop}
  (spared : ∀ cause contents, causes cause → allowed (.store cause) contents)

include spared

/-- Once the element is written, only the store can fail. -/
theorem concludes_append (value : Word)
    (spare : array.claimed contents ≠ Word.countBound - 1)
    (corrupt : allowed (.corruptLength array.base) contents)
    (unreached : allowed (.slotOverflow array.base) contents) :
    Layout.Concludes causes allowed (array.append value) contents
      (fun _ after => array.claimed after < Word.countBound) := by
  apply (concludes_size (spared · _) rfl fun _ => corrupt).bind
  rintro size contents ⟨claims, small, rfl⟩
  have room : size + 1 < Word.countBound := by omega
  apply (concludes_writeElement (spared · _) (fun _ => unreached) value).bind
  rintro _ between ⟨_, rfl⟩
  rw [Layout.sum_eq room, pure_bind]
  apply (concludes_writeSize (spared · _) (size + 1)).mono
  rintro _ _ rfl
  rwa [claimed_set_length room]

/-- Before its first write a removal finds the length and the last cell. -/
theorem concludes_removeLast
    (corrupt : ¬ array.claimed contents < Word.countBound →
      allowed (.corruptLength array.base) contents)
    (empty : array.claimed contents = 0 → allowed .emptyArray contents)
    (unreached : ¬ array.base.Reaches (array.claimed contents) →
      allowed (.slotOverflow array.base) contents) :
    Layout.Concludes causes allowed array.removeLast contents
      (fun _ _ => True) := by
  apply (concludes_size (spared · _) rfl corrupt).bind
  rintro size contents ⟨claims, _, rfl⟩
  rw [← claims] at empty unreached
  split
  next none => exact Layout.Concludes.throw (empty none)
  next occupied =>
    have lastPlace : size - 1 + 1 = size := by omega
    rw [Layout.difference_eq (by omega), pure_bind]
    apply (concludes_elementCell fun outer =>
      unreached (by rwa [lastPlace] at outer)).bind
    rintro cell contents ⟨_, _, rfl⟩
    apply (concludes_writeSize (spared · _) _).bind
    exact fun _ _ _ => (Layout.concludes_write cell 0 (spared · _)).weaken

theorem concludes_eraseFrom {index count : Nat}
    (unreached : ¬ array.base.Reaches (index + count) →
      ∀ between, allowed (.slotOverflow array.base) between) :
    Layout.Concludes causes allowed (array.eraseFrom index count) contents
      (fun _ _ => True) := by
  induction count generalizing index contents with
  | zero => exact Layout.Concludes.pure trivial
  | succ count induction =>
      have next : index + 1 + count = index + (count + 1) := by omega
      apply (concludes_writeElement (spared · _) (fun outer =>
        unreached (fun reaches => outer (reaches.mono (by omega))) _) 0).bind
      exact fun _ _ _ => induction (by rwa [next])

/-- The length is emptied last, so it is empty whatever the elements are. -/
theorem concludes_clear
    (corrupt : ¬ array.claimed contents < Word.countBound →
      allowed (.corruptLength array.base) contents)
    (unreached : ¬ array.base.Reaches (array.claimed contents) →
      ∀ between, allowed (.slotOverflow array.base) between) :
    Layout.Concludes causes allowed array.clear contents
      (fun _ after => array.claimed after = 0) := by
  apply (concludes_size (spared · _) rfl corrupt).bind
  rintro size contents ⟨claims, _, rfl⟩
  rw [← claims] at unreached
  apply (concludes_eraseFrom spared (by rwa [Nat.zero_add])).bind
  intro _ between _
  apply (concludes_writeSize (spared · _) 0).mono
  rintro _ _ rfl
  exact claimed_set_length (by decide)

end Operations

end DynamicArray

namespace Cursor

variable {array : DynamicArray} {cursor : Cursor} {contents : Contents}
  {causes : StoreError → Prop} {allowed : LayoutError → Contents → Prop}

/-- What a step of a cursor over at most `limit` elements may give: the end,
an error, or an element within the limit, after which the cursor moves on. -/
inductive Steps (allowed : LayoutError → Contents → Prop) (cursor : Cursor)
    (limit : Nat) (before : Contents) :
    Option (Except LayoutError Word) × Cursor → Contents → Prop
  | finished : Steps allowed cursor limit before (none, cursor) before
  | failed {error : LayoutError} {after : Contents}
      (spared : allowed error after) :
      Steps allowed cursor limit before
        (some (.error error), { cursor with failed := true }) after
  | element {value : Word} (within : cursor.index < limit) :
      Steps allowed cursor limit before
        (some (.ok value), { cursor with index := cursor.index + 1 }) before

/-- An element lies below a length that is a count. -/
theorem concludes_fetch {index : Nat} {failed : Bool}
    (spared : ∀ cause, causes cause → allowed (.store cause) contents)
    (corrupt : ¬ array.claimed contents < Word.countBound →
      allowed (.corruptLength array.base) contents)
    (unreached : index < array.claimed contents →
      ¬ array.base.Reaches (index + 1) →
        allowed (.slotOverflow array.base) contents) :
    Layout.Concludes causes allowed (Cursor.mk array index failed).fetch
      contents (fun item after => after = contents ∧
        ∀ value next, item = some (value, next) →
          next = index + 1 ∧ index < array.claimed contents ∧
            array.claimed contents < Word.countBound) := by
  apply (DynamicArray.concludes_size spared rfl corrupt).bind
  rintro size contents ⟨claims, small, rfl⟩
  split
  · exact Layout.Concludes.pure ⟨rfl, nofun⟩
  next inside =>
    have within : index < array.claimed contents := by
      change ¬ size ≤ index at inside
      omega
    apply (DynamicArray.concludes_readElement spared (unreached within)).bind
    rintro value contents ⟨_, _, rfl⟩
    have counts : index + 1 < Word.countBound := by omega
    rw [Layout.sum_eq counts, pure_bind]
    apply Layout.Concludes.pure
    refine ⟨rfl, ?_⟩
    rintro _ _ ⟨rfl, rfl⟩
    exact ⟨rfl, within, small⟩

/-- A step hands over what was fetched, and keeps an error in mind. -/
theorem steps_step {limit : Nat}
    (fetched : Layout.Concludes causes allowed cursor.fetch contents
      (fun item after => after = contents ∧
        ∀ value next, item = some (value, next) →
          next = cursor.index + 1 ∧ cursor.index < limit)) :
    cursor.step.Safe causes (fun _ => True)
      (cursor.Steps allowed limit contents) contents := by
  unfold step
  split
  · exact ⟨trivial, .finished⟩
  · apply Program.Safe.bind fetched
    intro answer between _ outcome
    match answer with
    | .error error => exact ⟨trivial, .failed outcome⟩
    | .ok none =>
        obtain ⟨rfl, _⟩ := outcome
        exact ⟨trivial, .finished⟩
    | .ok (some (value, next)) =>
        obtain ⟨rfl, moved⟩ := outcome
        obtain ⟨rfl, within⟩ := moved value next rfl
        exact ⟨trivial, .element within⟩

/-- A visit comes to its end before the steps run out: every step moves the
cursor on within the limit.  The induction is on the steps that are left, and
`keeps` is what the actions on the way leave alone. -/
theorem concludes_visit {α : Type} {action : Word → Layout α}
    {keeps : Contents → Prop} {limit : Nat}
    (fetches : ∀ index contents, keeps contents →
      Layout.Concludes causes allowed (Cursor.mk array index false).fetch
        contents (fun item after => after = contents ∧
          ∀ value next, item = some (value, next) →
            next = index + 1 ∧ index < limit))
    (acts : ∀ value contents, keeps contents →
      Layout.Concludes causes allowed (action value) contents
        (fun _ after => keeps after))
    {steps index : Nat} (enough : limit < index + steps)
    (within : index ≤ limit) (kept : keeps contents) :
    Layout.Concludes causes allowed
      (visit action steps (Cursor.mk array index false)) contents
      (fun results after => keeps after ∧
        index + results.length ≤ limit) := by
  induction steps generalizing index contents with
  | zero => omega
  | succ steps induction =>
      apply Layout.Concludes.lift_bind
        (steps_step (fetches index contents kept))
      rintro _ between (_ | spared | within)
      · exact Layout.Concludes.pure ⟨kept, within⟩
      · exact Layout.Concludes.throw spared
      next value =>
        have inside : index < limit := within
        apply (acts value contents kept).bind
        intro result between keptBetween
        apply (induction (by omega) inside keptBetween).bind
        rintro results after ⟨keptAfter, few⟩
        apply Layout.Concludes.pure
        refine ⟨keptAfter, ?_⟩
        rw [List.length_cons]
        omega

end Cursor

namespace EnumerableSet

variable {set : EnumerableSet} {value : Word} {contents : Contents}
  {causes : StoreError → Prop} {allowed : LayoutError → Contents → Prop}

theorem concludes_contains
    (spared : ∀ cause, causes cause → allowed (.store cause) contents) :
    Layout.Concludes causes allowed (set.contains value) contents
      (fun present after =>
        present = decide (contents (set.positionCell value) ≠ 0) ∧
          after = contents) := by
  apply (Layout.concludes_read (set.positionCell value) spared).bind
  rintro _ _ ⟨rfl, rfl⟩
  exact Layout.Concludes.pure ⟨rfl, rfl⟩

/-- The place that a position other than zero stands for. -/
theorem concludes_indexOf {position : Word}
    (nonzero : position ≠ 0)
    (corrupt : ¬ position.toNat < Word.countBound →
      allowed (.corruptLength (set.positions.slotFor value)) contents) :
    Layout.Concludes causes allowed (set.indexOf value position) contents
      (fun index after => index + 1 = position.toNat ∧
        position.toNat < Word.countBound ∧ after = contents) := by
  have positive : 0 < position.toNat := by
    rw [Nat.pos_iff_ne_zero]
    exact fun zero => nonzero (BitVec.eq_of_toNat_eq zero)
  unfold indexOf Word.toCount?
  split
  next small =>
    rw [Layout.require_some, pure_bind, Layout.difference_eq positive]
    exact Layout.Concludes.pure ⟨by omega, small, rfl⟩
  next large => exact Layout.Concludes.throw (corrupt large)

theorem concludes_add (value : Word)
    (spared : ∀ cause contents, causes cause →
      allowed (.store cause) contents)
    (spare : set.members.claimed contents ≠ Word.countBound - 1)
    (corrupt : allowed (.corruptLength set.members.base) contents)
    (unreached : allowed (.slotOverflow set.members.base) contents) :
    Layout.Concludes causes allowed (set.add value) contents
      (fun _ _ => True) := by
  apply (concludes_contains (spared · _)).bind
  rintro present contents ⟨_, rfl⟩
  split
  · exact Layout.Concludes.pure trivial
  · apply (DynamicArray.concludes_append spared value spare corrupt
      unreached).bind
    intro _ between small
    apply (DynamicArray.concludes_size (spared · _) rfl
      fun large => absurd small large).bind
    intro position between _
    exact (Layout.concludes_write _ _ (spared · _)).bind
      fun _ _ _ => Layout.Concludes.pure trivial

end EnumerableSet

end SlotStorage
