import SlotStorage.Proofs.Layout.BlobEffects

/-!
# Blobs on a store that may fail

Data cells are emptied before the head and written after it.  So at any time
the head accounts for every data cell that is not empty, whatever calls have
failed, and the next deletion or writing finds all of them.
-/

namespace SlotStorage

namespace Blob

/-- The head can be read, and the cells after those that it announces are
empty up to the limit. -/
structure Tracks (blob : Blob) (limit : Nat) (head : Head)
    (contents : Contents) : Prop where
  decoded : Head.decode? (contents blob.headCell) blob.key = some head
  within : head.dataSlots ≤ limit
  beyond : ∀ offset, head.dataSlots < offset → offset ≤ limit →
    contents (blob.cell offset) = 0

/-- The head accounts for the cells up to the limit, whatever it announces. -/
def Tracked (blob : Blob) (limit : Nat) (contents : Contents) : Prop :=
  ∃ head, blob.Tracks limit head contents

/-- All cells up to the limit are empty. -/
def Blank (blob : Blob) (limit : Nat) (contents : Contents) : Prop :=
  ∀ offset ≤ limit, contents (blob.cell offset) = 0

variable {blob : Blob} {limit : Nat} {head : Head} {bytes : Bytes}
  {contents after : Contents}

theorem Tracks.tracked (tracks : blob.Tracks limit head contents) :
    blob.Tracked limit contents :=
  ⟨head, tracks⟩

theorem Holds.tracked
    (holds : blob.Holds (limit + 1) bytes contents)
    (reaches : blob.key.Reaches limit) : blob.Tracked limit contents := by
  have fits : blob.Fits (limit + 1) := .of_reaches reaches
  have slots := dataSlots_ofLength bytes.length
  have room := holds.room
  refine ⟨Head.ofLength bytes.length, holds.decode?_headCell fits, by omega,
    ?_⟩
  intro offset later within
  rw [holds.cells offset (by omega), List.getD_eq_default]
  rw [length_encode]
  omega

theorem Blank.tracked (blank : blob.Blank limit contents) :
    blob.Tracked limit contents := by
  have empty := blank 0 (Nat.zero_le limit)
  rw [cell_zero] at empty
  refine ⟨.short 0, ?_, Nat.zero_le limit, ?_⟩
  · rw [empty]
    exact Head.decode?_zero blob.key
  · exact fun offset _ within => blank offset within

/-- While data cells are emptied, the head stays. -/
theorem Tracks.erased (tracks : blob.Tracks limit head contents)
    (reaches : blob.key.Reaches limit) {left : Nat}
    (erased : blob.Erased head.dataSlots left contents after) :
    blob.Tracks limit head after := by
  have fits : blob.Fits (limit + 1) := .of_reaches reaches
  refine ⟨?_, tracks.within, ?_⟩
  · have same := erased.cells 0 (Nat.zero_le _)
    rw [if_neg (Nat.not_lt_zero left), cell_zero] at same
    rw [same]
    exact tracks.decoded
  · intro offset later within
    rw [erased.same _ (fits.cell_not_mem_area (by omega) later)]
    exact tracks.beyond offset later within

theorem Tracks.emptied (tracks : blob.Tracks limit head contents)
    (reaches : blob.key.Reaches limit)
    (emptied : blob.Emptied head.dataSlots contents after) :
    blob.Blank limit after := by
  have fits : blob.Fits (limit + 1) := .of_reaches reaches
  intro offset within
  by_cases announced : offset ≤ head.dataSlots
  · exact emptied.cells offset announced
  · rw [emptied.same _ (fits.cell_not_mem_area (by omega) (by omega))]
    exact tracks.beyond offset (by omega) within

/-- As soon as the head is written, it announces all cells that are still to
be written. -/
theorem Blank.written (blank : blob.Blank limit contents)
    (reaches : blob.key.Reaches limit) (small : bytes.length ≤ maxLong)
    (room : slotCount bytes.length ≤ limit + 1) {count : Nat}
    (written : blob.Written (encode bytes) count contents after) :
    blob.Tracked limit after := by
  have fits : blob.Fits (limit + 1) := .of_reaches reaches
  have length := length_encode bytes
  have positive := slotCount_pos bytes.length
  have slots := dataSlots_ofLength bytes.length
  have first := written.cells 0 (by omega)
  have others : ∀ offset, slotCount bytes.length ≤ offset →
      offset ≤ limit → after (blob.cell offset) = 0 := by
    intro offset later within
    rw [written.same _ (fits.cell_not_mem_area (by omega) (by omega))]
    exact blank offset within
  by_cases started : 0 < count
  · rw [if_pos started, cell_zero] at first
    refine ⟨Head.ofLength bytes.length, ?_, by omega, ?_⟩
    · rw [first, ← List.getD_eq_getElem _ 0 (by omega)]
      exact decode?_head small (reaches.mono (by omega))
    · exact fun offset later within => others offset (by omega) within
  · apply Blank.tracked
    intro offset within
    by_cases own : offset < (encode bytes).length
    · rw [written.cells offset own, if_neg (by omega)]
      exact blank offset within
    · exact others offset (by omega) within

/-! ## Calls -/

/-- A call on a blob. -/
inductive Call where
  | set (bytes : Bytes)
  | delete
  | get
  deriving DecidableEq

/-- What a call answers. -/
inductive Answer where
  | done
  | bytes (value : Bytes)
  deriving DecidableEq

namespace Call

/-- The call on a blob in storage. -/
def perform (blob : Blob) : Call → Layout Answer
  | .set bytes => do
    blob.set bytes
    return .done
  | .delete => do
    blob.delete
    return .done
  | .get => do return .bytes (← blob.get)

/-- A byte string that is written is not too long for a head, and if it is not
refused, it takes up cells within the limit. -/
def Within (blob : Blob) (limit : Nat) : Call → Prop
  | .set bytes => bytes.length ≤ maxLong ∧
    (blob.key.Reaches (slotCount bytes.length - 1) →
      slotCount bytes.length ≤ limit + 1)
  | _ => True

instance (blob : Blob) (limit : Nat) (call : Call) :
    Decidable (call.Within blob limit) :=
  match call with
  | .set _ => inferInstanceAs (Decidable (_ ∧ (_ → _)))
  | .delete | .get => inferInstanceAs (Decidable True)

end Call

/-- A call may only fail because the store does, or for want of slots. -/
def Allowed (blob : Blob) (causes : StoreError → Prop)
    (answer : Except LayoutError Answer) : Prop :=
  ∀ error, answer = .error error →
    (∃ cause, causes cause ∧ error = .store cause) ∨
      error = .slotOverflow blob.key

section Operations

variable {causes : StoreError → Prop}
  (tracks : blob.Tracks limit head contents)
  (reaches : blob.key.Reaches limit)

include tracks reaches

theorem Tracks.safe_delete {keeps : Contents → Prop}
    (kept : ∀ between,
      contents.SameOff (blob.area (limit + 1)) between →
      blob.Tracked limit between → keeps between) :
    Layout.Safe causes keeps blob.delete contents
      (fun answer after => answer = () ∧
        contents.SameOff (blob.area (limit + 1)) after ∧
          blob.Blank limit after) := by
  have within := tracks.within
  have inside := blob.area_mono (show head.dataSlots + 1 ≤ limit + 1 by omega)
  apply (Blob.safe_delete tracks.decoded
    (fun left between erased => kept between (erased.same.mono inside)
      (tracks.erased reaches erased).tracked)
    (fun between emptied => kept between (emptied.same.mono inside)
      (tracks.emptied reaches emptied).tracked)).mono
  exact fun _ after _ emptied =>
    ⟨rfl, emptied.same.mono inside, tracks.emptied reaches emptied⟩

theorem Tracks.safe_set (small : bytes.length ≤ maxLong)
    (room : slotCount bytes.length ≤ limit + 1) :
    Layout.Safe causes (blob.Tracked limit) (blob.set bytes) contents
      (fun _ _ => True) := by
  have positive := slotCount_pos bytes.length
  apply (Blob.safe_set tracks.decoded
    (fun left between erased => (tracks.erased reaches erased).tracked)
    (fun between emptied => (tracks.emptied reaches emptied).tracked)
    (reaches.mono (by omega))
    (fun between count after emptied written =>
      (tracks.emptied reaches emptied).written reaches small room
        written)).mono
  exact fun _ _ _ _ => trivial

theorem Tracks.safe_perform {call : Call}
    (within : call.Within blob limit) :
    (call.perform blob).run.Safe causes (blob.Tracked limit)
      (fun answer _ => blob.Allowed causes answer) contents := by
  have allow : Layout.Safe causes (blob.Tracked limit) (call.perform blob)
      contents (fun _ _ => True) →
        (call.perform blob).run.Safe causes (blob.Tracked limit)
          (fun answer _ => blob.Allowed causes answer) contents := by
    intro safe
    apply Program.Safe.mono safe (fun _ kept => kept)
    intro answer after _ ends error failed
    rw [failed] at ends
    exact .inl ends
  cases call with
  | set bytes =>
      obtain ⟨small, room⟩ := within
      by_cases accepted : blob.key.Reaches (slotCount bytes.length - 1)
      · apply allow
        apply (tracks.safe_set reaches small (room accepted)).bind
        exact fun _ after kept _ => Layout.Safe.pure kept trivial
      · have refused : (blob.set bytes).run =
            .done (.error (.slotOverflow blob.key)) := by
          unfold Blob.set
          simp only [length_encode]
          rw [Layout.difference_eq (slotCount_pos _), pure_bind,
            cellAt_of_not_reaches accepted]
          rfl
        change ((blob.set bytes).run >>= _).Safe _ _ _ _
        rw [refused]
        refine ⟨tracks.tracked, ?_⟩
        rintro error ⟨⟩
        exact .inr rfl
  | delete =>
      apply allow
      apply (tracks.safe_delete reaches fun _ _ tracked => tracked).bind
      exact fun _ after kept _ => Layout.Safe.pure kept trivial
  | get =>
      apply allow
      apply (reads_get tracks.tracked tracks.decoded).bind
      exact Layout.Safe.pure tracks.tracked trivial

end Operations

/-! ## Runs -/

/-- What holds of a blob at any time, whatever has failed: the head can be
read and announces every data cell that is not empty, and deleting or writing
leaves nothing of what was there. -/
structure Accounted (blob : Blob) (limit : Nat) (contents : Contents) :
    Prop where
  head : contents blob.headCell = 0 ∨
    (Head.decode? (contents blob.headCell) blob.key).isSome
  data : ∀ offset, 1 ≤ offset → offset ≤ limit →
    contents (blob.cell offset) ≠ 0 → ∃ head,
      Head.decode? (contents blob.headCell) blob.key = some head ∧
        offset ≤ head.dataSlots
  deletes : ∃ after, blob.delete.Runs contents () after ∧
    ∀ offset ≤ limit, after (blob.cell offset) = 0
  sets : ∀ bytes, bytes.length ≤ maxLong →
    blob.key.Reaches (slotCount bytes.length - 1) →
      ∃ after, (blob.set bytes).Runs contents () after ∧
        (∀ offset (within : offset < (encode bytes).length),
          after (blob.cell offset) = (encode bytes)[offset]) ∧
        ∀ offset, (encode bytes).length ≤ offset → offset ≤ limit →
          after (blob.cell offset) = 0

theorem Tracked.accounted (tracked : blob.Tracked limit contents)
    (reaches : blob.key.Reaches limit) : blob.Accounted limit contents := by
  obtain ⟨head, tracks⟩ := tracked
  have fits : blob.Fits (limit + 1) := .of_reaches reaches
  constructor
  · right
    rw [tracks.decoded]
    rfl
  · intro offset _ within nonzero
    refine ⟨head, tracks.decoded, ?_⟩
    by_contra later
    exact nonzero (tracks.beyond offset (by omega) within)
  · obtain ⟨_, after, runs, _, _, blank⟩ :=
      (tracks.safe_delete reaches fun _ _ _ => trivial).runs
    exact ⟨after, runs, blank⟩
  · intro bytes _ accepted
    obtain ⟨after, runs, replaced⟩ := set_runs tracks.decoded accepted
    refine ⟨after, runs, replaced.words, ?_⟩
    intro offset later within
    by_cases announced : offset ≤ head.dataSlots
    · exact replaced.erased offset later announced
    · rw [replaced.others _ (fits.cell_not_mem_area (by omega) (by omega))]
      exact tracks.beyond offset (by omega) within

/-- Whichever store calls of a run fail, and whatever is tried afterwards: at
any time the head accounts for the cells up to the limit, and no call of the
run fails for another cause than the store's or a want of slots. -/
theorem trace_accounted (blob : Blob) (limit : Nat) (calls : List Call)
    (plan : FaultPlan) (before : Contents)
    (reaches : blob.key.Reaches limit)
    (within : ∀ call ∈ calls, call.Within blob limit)
    (empty : ∀ offset ≤ limit, before (blob.cell offset) = 0) :
    let program := Action.attempts (Call.perform blob) calls
    (∀ state ∈ program.trace (Contents.backend.withFaults plan)
        ⟨before, 0, 0⟩, blob.Accounted limit state.state) ∧
    ∀ error, .error error ∈ (program.run (Contents.backend.withFaults plan)
        ⟨before, 0, 0⟩).1 →
      (∃ cause, plan.Causes cause ∧ error = .store cause) ∨
        error = .slotOverflow blob.key := by
  intro program
  have blank : blob.Blank limit before := empty
  have safe : program.Safe plan.Causes (blob.Tracked limit)
      (fun answers _ => ∀ answer ∈ answers,
        blob.Allowed plan.Causes answer) before := by
    apply Program.Safe.attempts (fun left contents =>
      (∀ call ∈ left, call.Within blob limit) ∧ blob.Tracked limit contents)
    · exact fun left contents staged => staged.2
    · rintro call left contents ⟨allWithin, head, tracks⟩
      apply Program.Safe.mono (tracks.safe_perform reaches
        (allWithin call List.mem_cons_self))
      · exact fun between kept => ⟨fun later member =>
          allWithin later (List.mem_cons_of_mem call member), kept⟩
      · exact fun answer after _ allowed => allowed
    · exact ⟨within, blank.tracked⟩
  obtain ⟨kept, ends⟩ := safe.trace_run ⟨before, 0, 0⟩
  exact ⟨fun state member => (kept state member).accounted reaches,
    fun error member => ends _ member error rfl⟩

/-- A long byte string is being replaced when the store fails before the new
head is written; deleting is tried after that. -/
theorem trace_accounted_replacing :
    let blob : Blob := ⟨.storageProcessor, ⟨5⟩⟩
    let program := Action.attempts (Call.perform blob)
      [.set (List.replicate 40 7), .set (Utf8.ofString "hello"), .get,
        .delete]
    let plan := FaultPlan.afterCalls 8 (.io "gone")
    (∀ state ∈ program.trace (Contents.backend.withFaults plan)
        ⟨Contents.empty, 0, 0⟩, blob.Accounted 2 state.state) ∧
    ∀ error, .error error ∈ (program.run (Contents.backend.withFaults plan)
        ⟨Contents.empty, 0, 0⟩).1 →
      (∃ cause, plan.Causes cause ∧ error = .store cause) ∨
        error = .slotOverflow blob.key := by
  intro blob program plan
  exact trace_accounted blob 2
    [.set (List.replicate 40 7), .set (Utf8.ofString "hello"), .get, .delete]
    plan Contents.empty (by decide) (by decide) (fun _ _ => rfl)

end Blob

end SlotStorage
