import SlotStorage.Proofs.Layout.BlobFaults
import SlotStorage.Proofs.Layout.BlobHeads
import SlotStorage.Proofs.Layout.ArrayCalls
import SlotStorage.Proofs.Layout.SetCalls
import SlotStorage.Proofs.Layout.SetClearing
import SlotStorage.Proofs.Orderly

/-!
# Ranges of counts and slices

Steps on counts that could leave their range, and cuts of byte strings, ask
first and end with an error of their own.  Whatever the cells hold, no call
ends with it.  Where a step does not ask, a second form of its function does,
and the two are equal: no question is ever answered with no.
-/

namespace SlotStorage

namespace Layout

variable {α β : Type} {causes : StoreError → Prop} {contents : Contents}

/-- Whichever calls fail, the action does not leave the range of a count or of
a byte string, and reaches the goal unless it ends with another error. -/
abbrev InRange (causes : StoreError → Prop) (action : Layout α)
    (contents : Contents) (goal : α → Contents → Prop) : Prop :=
  Layout.Concludes causes (fun error _ => error ≠ .outOfRange) action contents
    goal

theorem store_inRange (cause : StoreError) (_ : causes cause) :
    LayoutError.store cause ≠ .outOfRange :=
  nofun

theorem InRange.ne_outOfRange {action : Layout α} {plan : FaultPlan}
    {start : Counted Contents} {goal : α → Contents → Prop}
    (inRange : Layout.InRange plan.Causes action start.state goal) :
    (action.runOn (Contents.backend.withFaults plan) start).1 ≠
      .error .outOfRange :=
  fun failed => inRange.allowed_of_error failed rfl

theorem inRange_read (cell : Cell) :
    Layout.InRange causes (Layout.read cell) contents (fun word after =>
      word = contents cell ∧ after = contents) :=
  concludes_read cell store_inRange

theorem inRange_write (cell : Cell) (value : Word) :
    Layout.InRange causes (Layout.write cell value) contents
      (fun _ _ => True) :=
  (concludes_write cell value store_inRange).weaken

theorem inRange_require (error : LayoutError) {value : Option α}
    (other : error ≠ .outOfRange) :
    Layout.InRange causes (Layout.require error value) contents
      (fun result _ => value = some result) :=
  (concludes_require fun _ => other).mono fun _ _ found => found.1

/-- A call hands over what its operation gives. -/
theorem InRange.answer {action : Layout α} {goal : α → Contents → Prop}
    (inRange : Layout.InRange causes action contents goal) (wrap : α → β) :
    Layout.InRange causes (action >>= fun result => Pure.pure (wrap result))
      contents (fun _ _ => True) :=
  inRange.bind fun _ _ _ => Concludes.pure trivial

/-- A number that has to be smaller than a bound. -/
def below (bound number : Nat) : Layout Nat :=
  if number < bound then pure number else throw .outOfRange

theorem below_eq {bound number : Nat} (small : number < bound) :
    Layout.below bound number = pure number := by
  rw [Layout.below, if_pos small]

end Layout

/-! ## Arrays -/

namespace DynamicArray

variable {array : DynamicArray} {contents : Contents}
  {causes : StoreError → Prop}

theorem inRange_size :
    Layout.InRange causes array.size contents (fun size after =>
      size = array.claimed contents ∧ size < Word.countBound ∧
        after = contents) :=
  (concludes_size Layout.store_inRange rfl fun _ => nofun).mono
    fun _ _ ⟨claims, small, same⟩ => ⟨claims, claims ▸ small, same⟩

theorem inRange_isEmpty :
    Layout.InRange causes array.isEmpty contents (fun _ _ => True) :=
  inRange_size.answer _

theorem inRange_readElement (index : Nat) :
    Layout.InRange causes (array.readElement index) contents
      (fun _ _ => True) :=
  (concludes_readElement Layout.store_inRange fun _ => nofun).weaken

theorem inRange_get (index : Nat) :
    Layout.InRange causes (array.get index) contents (fun _ _ => True) :=
  (concludes_get Layout.store_inRange rfl (fun _ => nofun) (fun _ => nofun)
    fun _ _ => nofun).weaken

/-- An element that is written lies below a length that is a count. -/
theorem inRange_set (index : Nat) (value : Word) :
    Layout.InRange causes (array.set index value) contents
      (fun _ _ => index + 1 < Word.countBound) := by
  apply (concludes_set Layout.store_inRange rfl (fun _ => nofun)
    (fun _ => nofun) (fun _ _ => nofun) value).mono
  rintro _ _ ⟨within, small, _⟩
  omega

theorem inRange_last :
    Layout.InRange causes array.last contents (fun _ _ => True) := by
  apply inRange_size.bind
  intro size between _
  split
  · exact Layout.Concludes.pure trivial
  · rw [Layout.difference_eq (by omega), pure_bind]
    exact (inRange_readElement _).answer some

theorem inRange_append (value : Word)
    (spare : array.claimed contents ≠ Word.countBound - 1) :
    Layout.InRange causes (array.append value) contents (fun _ _ => True) :=
  (concludes_append (fun cause _ => Layout.store_inRange cause) value spare
    nofun nofun).weaken

theorem inRange_removeLast :
    Layout.InRange causes array.removeLast contents (fun _ _ => True) :=
  concludes_removeLast (fun cause _ => Layout.store_inRange cause)
    (fun _ => nofun) (fun _ => nofun) (fun _ => nofun)

theorem inRange_clear :
    Layout.InRange causes array.clear contents (fun _ _ => True) :=
  (concludes_clear (fun cause _ => Layout.store_inRange cause)
    (fun _ => nofun) (fun _ _ => nofun)).weaken

end DynamicArray

namespace Cursor

variable {α : Type} {cursor : Cursor} {contents : Contents}
  {causes : StoreError → Prop}

/-- The index that follows on an element is still a count. -/
theorem inRange_fetch :
    Layout.InRange causes cursor.fetch contents (fun item after =>
      after = contents ∧ ∀ value next, item = some (value, next) →
        next = cursor.index + 1 ∧ cursor.index < Word.countBound - 1) := by
  obtain ⟨array, index, failed⟩ := cursor
  apply (concludes_fetch Layout.store_inRange (fun _ => nofun)
    (fun _ _ => nofun)).mono
  rintro item after ⟨same, moved⟩
  refine ⟨same, ?_⟩
  intro value next found
  obtain ⟨follows, within, small⟩ := moved value next found
  have inside : index < Word.countBound - 1 := by omega
  exact ⟨follows, inside⟩

/-- What a step may give: no count out of range, and an element only with an
index after it that is a count. -/
def Moves (cursor : Cursor)
    (outcome : Option (Except LayoutError Word) × Cursor) : Prop :=
  outcome.1 ≠ some (.error .outOfRange) ∧
    ∀ value, outcome.1 = some (.ok value) →
      outcome.2.index = cursor.index + 1 ∧
        outcome.2.index < Word.countBound

theorem moves_step :
    cursor.step.Safe causes (fun _ => True) (fun outcome _ =>
      cursor.Moves outcome) contents := by
  apply (steps_step inRange_fetch).mono fun _ kept => kept
  rintro _ after _ (_ | spared | within)
  · exact ⟨nofun, nofun⟩
  · refine ⟨?_, nofun⟩
    rintro ⟨rfl⟩
    exact spared rfl
  · refine ⟨nofun, fun _ _ => ⟨rfl, ?_⟩⟩
    change cursor.index + 1 < Word.countBound
    omega

/-- Whatever a store answers, an element comes with an index after it that is
a count. -/
theorem yields_fetch (cursor : Cursor) :
    cursor.fetch.run.Yields Set.univ (fun answer =>
      ∀ value next, answer = .ok (some (value, next)) →
        next = cursor.index + 1 ∧ cursor.index + 1 < Word.countBound) := by
  have size : cursor.array.size.run.Confined Set.univ :=
    (DynamicArray.orderly_size (Set.mem_univ _)).confined
  have element : (cursor.array.readElement cursor.index).run.Confined
      Set.univ :=
    (DynamicArray.orderly_readElement (Set.mem_univ _) _).confined
  apply Program.Yields.bind size
  rintro (error | size) _
  · rintro _ _ ⟨⟩
  dsimp only [ExceptT.bindCont]
  split
  · rintro _ _ ⟨⟩
  apply Program.Yields.bind element
  rintro (error | value) _
  · rintro _ _ ⟨⟩
  dsimp only [ExceptT.bindCont]
  by_cases fits : cursor.index + 1 < Word.countBound
  · rw [Layout.sum_eq fits]
    rintro _ _ ⟨⟩
    exact ⟨rfl, fits⟩
  · rw [Layout.sum, if_neg fits]
    rintro _ _ ⟨⟩

theorem yields_step (cursor : Cursor) :
    cursor.step.Yields Set.univ (fun outcome =>
      ∀ value, outcome.1 = some (.ok value) →
        outcome.2.index = cursor.index + 1 ∧
          cursor.index + 1 < Word.countBound) := by
  unfold step
  split
  · rintro _ ⟨⟩
  · apply cursor.yields_fetch.bind
    rintro (error | _ | ⟨value, next⟩) moved
    · rintro _ ⟨⟩
    · rintro _ ⟨⟩
    · exact fun _ _ => moved value next rfl

theorem inRange_forEach {array : DynamicArray} {action : Word → Layout α}
    (each : ∀ value contents, Layout.InRange causes (action value) contents
      (fun _ _ => True)) :
    Layout.InRange causes (array.cursor.forEach action) contents
      (fun _ _ => True) :=
  (concludes_visit (fun _ _ _ => inRange_fetch)
    (fun value contents _ => each value contents)
    (show Word.countBound - 1 < 0 + Word.countBound by decide)
    (Nat.zero_le _) trivial).weaken

end Cursor

namespace DynamicArray

variable {array : DynamicArray} {contents : Contents}
  {causes : StoreError → Prop}

theorem inRange_toList :
    Layout.InRange causes array.toList contents (fun _ _ => True) :=
  Cursor.inRange_forEach fun _ _ => Layout.Concludes.pure trivial

/-- The call does not append to an array of the largest length. -/
def Call.Spare (array : DynamicArray) (contents : Contents) : Call → Prop
  | .append _ => array.claimed contents ≠ Word.countBound - 1
  | _ => True

theorem inRange_perform {call : Call} (spare : call.Spare array contents) :
    Layout.InRange causes (call.perform array) contents (fun _ _ => True) := by
  cases call with
  | append value => exact (inRange_append value spare).answer _
  | set index value => exact (inRange_set index value).answer _
  | removeLast => exact inRange_removeLast.answer _
  | clear => exact inRange_clear.answer _
  | get index => exact (inRange_get index).answer _
  | last => exact inRange_last.answer _
  | size => exact inRange_size.answer _
  | isEmpty => exact inRange_isEmpty.answer _
  | toList => exact inRange_toList.answer _

/-- The cell of an element, with a distance that has to be a word. -/
def checkedElementCell (array : DynamicArray) (index : Nat) : Layout Cell := do
  let offset ← Layout.below Word.bound (index + 1)
  let slot ← Layout.require (.slotOverflow array.base)
    (array.base.add? offset)
  return ⟨array.space, slot⟩

theorem checkedElementCell_eq (array : DynamicArray) {index : Nat}
    (small : index < Word.countBound) :
    array.checkedElementCell index = array.elementCell index := by
  have inside : index + 1 < Word.bound := by
    have larger := Word.countBound_lt_bound
    omega
  rw [checkedElementCell, Layout.below_eq inside, pure_bind]
  rfl

end DynamicArray

/-! ## Sets -/

namespace EnumerableSet

variable {set : EnumerableSet} {contents : Contents}
  {causes : StoreError → Prop}

theorem inRange_contains (value : Word) :
    Layout.InRange causes (set.contains value) contents
      (fun _ after => after = contents) :=
  (concludes_contains Layout.store_inRange).mono fun _ _ found => found.2

theorem inRange_writePosition (value position : Word) :
    Layout.InRange causes (set.positions.set value position) contents
      (fun _ _ => True) :=
  Layout.inRange_write _ position

theorem inRange_add (value : Word)
    (spare : set.members.claimed contents ≠ Word.countBound - 1) :
    Layout.InRange causes (set.add value) contents (fun _ _ => True) :=
  concludes_add value (fun cause _ => Layout.store_inRange cause) spare nofun
    nofun

theorem inRange_remove (value : Word) :
    Layout.InRange causes (set.remove value) contents (fun _ _ => True) := by
  apply (Layout.inRange_read (set.positionCell value)).bind
  rintro position contents ⟨rfl, rfl⟩
  split
  · exact Layout.Concludes.pure trivial
  next nonzero =>
  apply (concludes_indexOf nonzero fun _ => nofun).bind
  intro index between _
  apply DynamicArray.inRange_size.bind
  intro size between _
  split
  · exact Layout.Concludes.throw nofun
  rw [Layout.difference_eq (by omega), pure_bind]
  apply (DynamicArray.inRange_get _).bind
  intro last between _
  apply (inRange_writePosition value 0).bind
  intro _ between _
  have shortened {contents : Contents} : Layout.InRange causes (do
      let _ ← set.members.removeLast
      return true) contents (fun _ _ => True) :=
    DynamicArray.inRange_removeLast.answer fun _ => true
  split
  · apply (DynamicArray.inRange_set index last).bind
    intro _ between next
    rw [Layout.sum_eq next, pure_bind]
    exact (inRange_writePosition last _).bind fun _ _ _ => shortened
  · exact shortened

theorem inRange_clear :
    Layout.InRange causes set.clear contents (fun _ _ => True) := by
  have forgotten : Layout.InRange causes (set.cursor.forEach fun member =>
      set.positions.set member 0) contents (fun _ _ => True) :=
    Cursor.inRange_forEach fun member _ => inRange_writePosition member 0
  exact forgotten.bind fun _ _ _ => DynamicArray.inRange_clear

/-- The call does not add to a set of the largest size. -/
def Call.Spare (set : EnumerableSet) (contents : Contents) : Call → Prop
  | .add _ => set.members.claimed contents ≠ Word.countBound - 1
  | _ => True

theorem inRange_perform {call : Call} (spare : call.Spare set contents) :
    Layout.InRange causes (call.perform set) contents (fun _ _ => True) := by
  cases call with
  | add value => exact (inRange_add value spare).answer _
  | remove value => exact (inRange_remove value).answer _
  | clear => exact inRange_clear.answer _
  | contains value => exact (inRange_contains value).answer _
  | size => exact DynamicArray.inRange_size.answer _
  | isEmpty => exact DynamicArray.inRange_isEmpty.answer _
  | members => exact DynamicArray.inRange_toList.answer _

/-! ### The count of the members that a clearing forgets -/

/-- Empties the positions of the members under a cursor and adds them up, with
sums that have to be counts. -/
def checkedForget (set : EnumerableSet) : Nat → Nat → Cursor → Layout Nat
  | 0, _, _ => throw .outOfRange
  | steps + 1, cleared, cursor => do
    let (item, cursor) ← ExceptT.lift cursor.step
    match item with
    | none => return cleared
    | some (.error error) => throw error
    | some (.ok member) =>
      let _ ← set.forget member
      set.checkedForget steps (← Layout.sum cleared 1) cursor

/-- The count never runs ahead of the index of the cursor, which is a count
itself. -/
theorem checkedForget_eq (set : EnumerableSet) (steps : Nat)
    (cursor : Cursor) :
    set.checkedForget steps cursor.index cursor =
      cursor.visit set.forget steps >>= fun results =>
        pure (cursor.index + results.length) := by
  induction steps generalizing cursor with
  | zero => rfl
  | succ steps induction =>
      unfold checkedForget Cursor.visit
      rw [bind_assoc]
      apply Action.lift_bind_congr cursor.yields_step
      rintro ⟨_ | error | member, later⟩ moved
      · rfl
      · rfl
      · obtain ⟨follows, fits⟩ := moved member rfl
        have counted := induction later
        rw [show later.index = cursor.index + 1 from follows] at counted
        have total (results : List Word) :
            cursor.index + (results.length + 1) =
              cursor.index + 1 + results.length := by
          omega
        simp only [Layout.sum_eq fits, pure_bind, bind_assoc, counted,
          List.length_cons, total]

/-- Removes all members and tells how many positions were emptied. -/
def checkedClear (set : EnumerableSet) : Layout Unit := do
  let _ ← set.checkedForget Word.countBound 0 set.cursor
  set.members.clear

theorem checkedClear_eq (set : EnumerableSet) :
    set.checkedClear = set.clear := by
  have counted := set.checkedForget_eq Word.countBound set.cursor
  rw [checkedClear, clear_eq]
  rw [show set.checkedForget Word.countBound 0 set.cursor = _ from counted]
  simp only [bind_assoc, pure_bind]
  rfl

end EnumerableSet

/-! ## Blobs -/

namespace Blob

variable {blob : Blob} {contents : Contents} {causes : StoreError → Prop}

theorem inRange_cellAt (offset : Nat) :
    Layout.InRange causes (blob.cellAt offset) contents (fun _ _ => True) :=
  (Layout.inRange_require (.slotOverflow blob.key) nofun).answer _

theorem inRange_decodeHead (word : Word) :
    Layout.InRange causes (blob.decodeHead word) contents (fun head _ =>
      Head.Accepted word blob.key head) :=
  (Layout.inRange_require (.corruptLength blob.key) nofun).mono
    fun _ _ decoded => Head.decode?_eq_some_iff.mp decoded

theorem inRange_writeFrom (offset : Nat) (words : List Word) :
    Layout.InRange causes (blob.writeFrom offset words) contents
      (fun _ _ => True) := by
  induction words generalizing offset contents with
  | nil => exact Layout.Concludes.pure trivial
  | cons word words induction =>
      apply (inRange_cellAt offset).bind
      intro cell between _
      exact (Layout.inRange_write cell word).bind fun _ _ _ =>
        induction (offset + 1)

theorem inRange_eraseData (count : Nat) :
    Layout.InRange causes (blob.eraseData count) contents
      (fun _ _ => True) := by
  induction count generalizing contents with
  | zero => exact Layout.Concludes.pure trivial
  | succ count induction =>
      apply (inRange_cellAt (count + 1)).bind
      intro cell between _
      exact (Layout.inRange_write cell 0).bind fun _ _ _ => induction

/-- A cell has as many bytes as are taken from it, and no more are taken than
are left. -/
theorem inRange_readFrom (count offset length : Nat) :
    Layout.InRange causes (blob.readFrom count offset length) contents
      (fun _ _ => True) := by
  induction count generalizing offset length contents with
  | zero => exact Layout.Concludes.pure trivial
  | succ count induction =>
      apply (inRange_cellAt offset).bind
      intro cell between _
      apply (Layout.inRange_read cell).bind
      intro word between _
      have enough : min length 32 ≤ (Octets.toBytes word).length := by
        rw [Octets.length_toBytes]
        exact Nat.min_le_right length 32
      simp only [Layout.firstBytes_eq enough, pure_bind,
        Layout.difference_eq (Nat.min_le_left length 32)]
      exact (induction (offset + 1) _).answer _

theorem inRange_delete :
    Layout.InRange causes blob.delete contents (fun _ _ => True) := by
  apply (Layout.inRange_read blob.headCell).bind
  intro word between _
  split
  · exact Layout.Concludes.pure trivial
  · apply (inRange_decodeHead word).bind
    intro head between _
    apply (inRange_eraseData _).bind
    intro _ between _
    exact (Layout.inRange_write blob.headCell 0).answer fun _ => ()

/-- There is a word to write, so the last one has a distance. -/
theorem inRange_set (bytes : Bytes) :
    Layout.InRange causes (blob.set bytes) contents (fun _ _ => True) := by
  have occupied : 1 ≤ (encode bytes).length := by
    rw [length_encode]
    exact slotCount_pos bytes.length
  unfold set
  simp only [Layout.difference_eq occupied, pure_bind]
  apply (inRange_cellAt _).bind
  intro cell between _
  exact inRange_delete.bind fun _ _ _ => inRange_writeFrom 0 (encode bytes)

theorem inRange_get :
    Layout.InRange causes blob.get contents (fun _ _ => True) := by
  apply (Layout.inRange_read blob.headCell).bind
  intro word between _
  apply (inRange_decodeHead word).bind
  intro head between accepted
  cases accepted with
  | short even small =>
      have enough : word.lastByte / 2 ≤ (Octets.toBytes word).length := by
        rw [Octets.length_toBytes]
        omega
      simp only [Layout.firstBytes_eq enough]
      exact Layout.Concludes.pure trivial
  | long odd small reaches => exact inRange_readFrom _ 1 _

theorem inRange_perform (call : Call) :
    Layout.InRange causes (call.perform blob) contents (fun _ _ => True) := by
  cases call with
  | set bytes => exact (inRange_set bytes).answer _
  | delete => exact inRange_delete.answer _
  | get => exact inRange_get.answer _

/-! ## Steps that do not ask -/

/-- The head at the key, with a difference that has to be a count. -/
def checkedDecodeHead (blob : Blob) (word : Word) : Layout Head :=
  let last := word.toNat % 256
  if last % 2 = 0 then
    Layout.require (.corruptLength blob.key)
      (if last / 2 ≤ maxShort then some (.short (last / 2)) else none)
  else do
    let length := (← Layout.difference word.toNat 1) / 2
    Layout.require (.corruptLength blob.key)
      (if length ≤ maxLong ∧ (blob.key.add? (dataSlots length)).isSome then
        some (.long length)
      else none)

/-- A head with an odd last byte is not zero. -/
theorem checkedDecodeHead_eq (blob : Blob) (word : Word) :
    blob.checkedDecodeHead word = blob.decodeHead word := by
  unfold checkedDecodeHead decodeHead Head.decode?
  by_cases even : word.toNat % 256 % 2 = 0
  · simp only [if_pos even]
  · simp only [if_neg even]
    rw [Layout.difference_eq (by omega), pure_bind]

/-- Removes the byte string and counts its cells, with a sum that has to be a
count. -/
def checkedDelete (blob : Blob) : Layout Unit := do
  let word ← Layout.read blob.headCell
  if word = 0 then
    return ()
  else
    let head ← blob.checkedDecodeHead word
    blob.eraseData head.dataSlots
    let _ ← Layout.write blob.headCell 0
    let _ ← Layout.sum head.dataSlots 1

/-- A head that is accepted announces no more cells than there are counts. -/
theorem checkedDelete_eq (blob : Blob) : blob.checkedDelete = blob.delete := by
  unfold checkedDelete delete
  congr 1
  funext word
  split
  · rfl
  rw [checkedDecodeHead_eq, decodeHead]
  cases decoded : Head.decode? word blob.key with
  | none => rfl
  | some head =>
      have few : head.dataSlots + 1 < Word.countBound := by
        cases Head.decode?_eq_some_iff.mp decoded with
        | short even small => exact (by decide : 0 + 1 < Word.countBound)
        | long odd small reaches =>
            change dataSlots ((word.toNat - 1) / 2) + 1 < Word.countBound
            unfold dataSlots Word.countBound
            unfold maxLong at small
            omega
      rw [Layout.require_some, pure_bind, pure_bind, Layout.sum_eq few]
      rfl

/-- The count of cells of a byte string, with a sum that has to be a count. -/
def checkedSlotCount (length : Nat) : Layout Nat :=
  if length ≤ maxShort then pure 1 else Layout.sum 1 (dataSlots length)

theorem checkedSlotCount_eq {length : Nat} (small : length < Word.countBound) :
    checkedSlotCount length = pure (slotCount length) := by
  unfold checkedSlotCount slotCount
  split
  · rfl
  · have few : 1 + dataSlots length < Word.countBound := by
      unfold dataSlots Word.countBound at *
      omega
    rw [Layout.sum_eq few]

/-- The words of a byte string.  In the short form the rest of the word has to
be there and twice the length has to be a byte, in the long form the head has
to be a word. -/
def checkedEncode (bytes : Bytes) : Layout (List Word) :=
  if bytes.length ≤ maxShort then do
    let rest ← Layout.difference 31 bytes.length
    let last ← Layout.below 256 (bytes.length * 2)
    return [Octets.ofBytes 32 (bytes ++ List.replicate rest 0
      ++ [UInt8.ofNat last])]
  else do
    let _ ← checkedSlotCount bytes.length
    let doubled ← Layout.below Word.bound (bytes.length * 2)
    let head ← Layout.below Word.bound (doubled + 1)
    return Word.ofCount head :: dataWords (dataSlots bytes.length) bytes

theorem checkedEncode_eq {bytes : Bytes} (small : bytes.length ≤ maxLong) :
    checkedEncode bytes = pure (encode bytes) := by
  unfold checkedEncode encode
  unfold maxLong at small
  split
  next short =>
    unfold maxShort at short
    rw [Layout.difference_eq short, pure_bind, Layout.below_eq (by omega),
      pure_bind]
  next long =>
    have few : bytes.length < Word.countBound := by
      unfold Word.countBound
      omega
    have inside : bytes.length * 2 + 1 < Word.bound := by
      unfold Word.bound
      omega
    rw [checkedSlotCount_eq few, pure_bind, Layout.below_eq (by omega),
      pure_bind, Layout.below_eq inside, pure_bind]

/-- Reads the bytes that are left onto those read so far. -/
def gather (blob : Blob) (length : Nat) : Nat → Nat → Bytes → Layout Bytes
  | 0, _, out => pure out
  | count + 1, offset, out => do
    let word ← Layout.read (← blob.cellAt offset)
    let left ← Layout.difference length out.length
    let chunk ← Layout.firstBytes (min left 32) (Octets.toBytes word)
    blob.gather length count (offset + 1) (out ++ chunk)

/-- The induction is on the cells that are left; never are more bytes read than
the head announces. -/
theorem gather_eq (blob : Blob) {length : Nat} (count offset : Nat)
    {out : Bytes} (within : out.length ≤ length) :
    blob.gather length count offset out =
      blob.readFrom count offset (length - out.length) >>= fun others =>
        pure (out ++ others) := by
  induction count generalizing offset out with
  | zero => simp [gather, readFrom]
  | succ count induction =>
      unfold gather readFrom
      simp only [bind_assoc]
      congr 1
      funext cell
      congr 1
      funext word
      have enough : min (length - out.length) 32 ≤
          (Octets.toBytes word).length := by
        rw [Octets.length_toBytes]
        exact Nat.min_le_right _ 32
      have taken : (out ++ (Octets.toBytes word).take
          (min (length - out.length) 32)).length =
            out.length + min (length - out.length) 32 := by
        rw [List.length_append, List.length_take, Nat.min_eq_left enough]
      have rest : length - (out ++ (Octets.toBytes word).take
          (min (length - out.length) 32)).length =
            length - out.length - min (length - out.length) 32 := by
        omega
      rw [Layout.difference_eq within, pure_bind, Layout.firstBytes_eq enough,
        pure_bind, pure_bind,
        Layout.difference_eq (Nat.min_le_left _ 32), pure_bind,
        induction (offset + 1) (by omega), rest]
      simp only [pure_bind, List.append_assoc]

/-- The byte string, read onto an empty one. -/
def checkedGet (blob : Blob) : Layout Bytes := do
  let word ← Layout.read blob.headCell
  match ← blob.checkedDecodeHead word with
  | .short length => Layout.firstBytes length (Octets.toBytes word)
  | .long length => blob.gather length (dataSlots length) 1 []

theorem checkedGet_eq (blob : Blob) : blob.checkedGet = blob.get := by
  have gathered (length : Nat) :
      blob.gather length (dataSlots length) 1 [] =
        blob.readFrom (dataSlots length) 1 length := by
    rw [gather_eq blob _ _ (Nat.zero_le length)]
    exact bind_pure _
  unfold checkedGet get
  congr 1
  funext word
  rw [checkedDecodeHead_eq]
  congr 1
  funext head
  cases head with
  | short length => rfl
  | long length => exact gathered length

end Blob

/-! ## All calls on layouts -/

/-- Calls of every layout that meet the state: none of them leaves a range.  A
step of a cursor moves it by one, to an index that is a count again, so the
elements given by a new cursor can be counted, too. -/
structure Layout.CallsInRange {σ : Type} (backend : Backend σ) (state : σ)
    (contents : Contents) : Prop where
  arrays : ∀ (array : DynamicArray) (call : DynamicArray.Call),
    call.Spare array contents →
      ((call.perform array).runOn backend state).1 ≠ .error .outOfRange
  cursors : ∀ cursor : Cursor,
    cursor.Moves (cursor.step.run backend state).1
  sets : ∀ (set : EnumerableSet) (call : EnumerableSet.Call),
    call.Spare set contents →
      ((call.perform set).runOn backend state).1 ≠ .error .outOfRange
  blobs : ∀ (blob : Blob) (call : Blob.Call),
    ((call.perform blob).runOn backend state).1 ≠ .error .outOfRange

/-- Steps that do not ask: the forms that do ask are equal to them. -/
structure Layout.ChecksSpared : Prop where
  elementCell : ∀ (array : DynamicArray) (index : Nat),
    index < Word.countBound →
      array.checkedElementCell index = array.elementCell index
  decodeHead : ∀ (blob : Blob) (word : Word),
    blob.checkedDecodeHead word = blob.decodeHead word
  slotCount : ∀ length, length < Word.countBound →
    Blob.checkedSlotCount length = pure (Blob.slotCount length)
  encode : ∀ bytes : Bytes, bytes.length ≤ Blob.maxLong →
    Blob.checkedEncode bytes = pure (Blob.encode bytes)
  get : ∀ blob : Blob, blob.checkedGet = blob.get
  clear : ∀ set : EnumerableSet, set.checkedClear = set.clear
  delete : ∀ blob : Blob, blob.checkedDelete = blob.delete

/-- Whatever the cells hold and whichever store calls fail, no step of
arithmetic and no slice of a layout leaves its range. -/
theorem Layout.arithmetic_in_range (plan : FaultPlan)
    (start : Counted Contents) :
    Layout.CallsInRange (Contents.backend.withFaults plan) start start.state ∧
      Layout.ChecksSpared := by
  refine ⟨⟨?_, ?_, ?_, ?_⟩, ⟨?_, ?_, ?_, ?_, ?_, ?_, ?_⟩⟩
  · intro array call spare
    exact (DynamicArray.inRange_perform spare).ne_outOfRange
  · intro cursor
    exact (Program.Safe.trace_run start cursor.moves_step).2
  · intro set call spare
    exact (EnumerableSet.inRange_perform spare).ne_outOfRange
  · intro blob call
    exact (Blob.inRange_perform call).ne_outOfRange
  · exact fun array _ small => array.checkedElementCell_eq small
  · exact Blob.checkedDecodeHead_eq
  · exact fun _ small => Blob.checkedSlotCount_eq small
  · exact fun _ small => Blob.checkedEncode_eq small
  · exact Blob.checkedGet_eq
  · exact EnumerableSet.checkedClear_eq
  · exact Blob.checkedDelete_eq

/-- The longest array that may still grow, on a store that does not fail. -/
theorem Layout.arithmetic_in_range_longest :
    let array : DynamicArray := ⟨.storageProcessor, ⟨5⟩⟩
    let contents := Contents.empty.set array.lengthCell
      (Word.ofCount (Word.countBound - 2))
    let call := DynamicArray.Call.append 7
    call.Spare array contents ∧
    ((call.perform array).runOn (Contents.backend.withFaults .none)
      ⟨contents, 0, 0⟩).1 ≠ .error .outOfRange := by
  intro array contents call
  have claimed : array.claimed contents = Word.countBound - 2 :=
    DynamicArray.claimed_set_length (by decide)
  have spare : call.Spare array contents := by
    change array.claimed contents ≠ Word.countBound - 1
    rw [claimed]
    decide
  exact ⟨spare, (arithmetic_in_range .none ⟨contents, 0, 0⟩).1.arrays array
    call spare⟩

end SlotStorage
