import SlotStorage.Proofs.Layout.ArrayFaults
import SlotStorage.Proofs.Operations

/-!
# Runs of expiry calls

An expiry index is a family of sets, one for each block, and the set of a block
is found again from its number on every call.  A run of calls answers like the
same calls on lists of keys, one list for each block, and every set stands for
the list of its block.  A call changes the cells of the set of its own block
only, so the sets do not depend on each other.
-/

namespace SlotStorage

/-- All cells of a set without members are empty. -/
theorem EnumerableSet.Carries.eq_zero {set : EnumerableSet} {words : Set Word}
    {capacity : Nat} {contents : Contents}
    (carries : set.Carries True words capacity [] contents) {cell : Cell}
    (inside : cell ∈ set.area words capacity) : contents cell = 0 := by
  rcases inside with inArray | ⟨value, known, rfl⟩
  · exact carries.array.eq_zero inArray
  · exact carries.positions value known

namespace ExpiryIndex

/-- The words of the keys in use. -/
def words (keys : Finset EntityKey) : Finset Word :=
  keys.map ⟨EntityKey.word, EntityKey.word_injective⟩

theorem mem_words {keys : Finset EntityKey} {key : EntityKey} :
    key.word ∈ words keys ↔ key ∈ keys :=
  Finset.mem_map' _

theorem card_words (keys : Finset EntityKey) :
    (words keys).card = keys.card :=
  Finset.card_map _

/-- The cells of a block's set: its array and the positions of all keys. -/
def area (index : ExpiryIndex) (keys : Finset EntityKey) (block : UInt64) :
    Set Cell :=
  (index.atBlock block).area (words keys) keys.card

/-- The cells of every set lie apart from each other, those of the array
before the last slot, and different sets have no cell in common. -/
structure Apart (index : ExpiryIndex) (keys : Finset EntityKey)
    (blocks : Finset UInt64) : Prop where
  separate : ∀ block ∈ blocks,
    (index.atBlock block).Separate (words keys) keys.card
  disjoint : ∀ left ∈ blocks, ∀ right ∈ blocks, left ≠ right →
    ∀ cell ∈ index.area keys left, cell ∉ index.area keys right

/-- The keys that are due at every block, in order. -/
abbrev Schedule := UInt64 → List EntityKey

def Schedule.empty : Schedule := fun _ => []

/-- The set of every block stands for the block's list, cell for cell. -/
def Holds (index : ExpiryIndex) (keys : Finset EntityKey)
    (blocks : Finset UInt64) (due : Schedule) (contents : Contents) : Prop :=
  ∀ block ∈ blocks, (index.atBlock block).Holds (words keys) keys.card
    ((due block).map EntityKey.word) contents

namespace Call

/-- The block whose set the call is for. -/
def block : Call → UInt64
  | .schedule block _ | .unschedule block _ | .isScheduled block _ => block
  | .dueAt block | .drain block => block

/-- The call is for a block in use, and so is its key, if it has one. -/
def Within (keys : Finset EntityKey) (blocks : Finset UInt64) : Call → Prop
  | .schedule block key | .unschedule block key | .isScheduled block key =>
    block ∈ blocks ∧ key ∈ keys
  | .dueAt block | .drain block => block ∈ blocks

instance (keys : Finset EntityKey) (blocks : Finset UInt64) (call : Call) :
    Decidable (call.Within keys blocks) :=
  match call with
  | .schedule _ _ | .unschedule _ _ | .isScheduled _ _ =>
    inferInstanceAs (Decidable (_ ∧ _))
  | .dueAt _ | .drain _ => inferInstanceAs (Decidable (_ ∈ _))

/-- The answer of the call, from the list of its block. -/
def answer (list : List EntityKey) : (call : Call) → call.Answer
  | .schedule _ key => decide (key ∉ list)
  | .unschedule _ key | .isScheduled _ key => decide (key ∈ list)
  | .dueAt _ | .drain _ => list

/-- The list of the call's block after the call. -/
def change (list : List EntityKey) : Call → List EntityKey
  | .schedule _ key => MemberList.insert key list
  | .unschedule _ key => MemberList.swapRemove key list
  | .isScheduled _ _ | .dueAt _ => list
  | .drain _ => []

/-- The lists of all blocks after the call. -/
def next (due : Schedule) (call : Call) : Schedule :=
  Function.update due call.block (call.change (due call.block))

/-- The lists of all blocks after calls. -/
def scheduleAfter (due : Schedule) (calls : List Call) : Schedule :=
  calls.foldl next due

/-- The call on the storage, with the answer beside it. -/
def tell (index : ExpiryIndex) (call : Call) :
    Layout (Σ call : Call, call.Answer) := do
  return ⟨call, ← call.perform index⟩

/-- The answers of calls on lists. -/
def answers : Schedule → List Call → List (Σ call : Call, call.Answer)
  | _, [] => []
  | due, call :: calls =>
    ⟨call, call.answer (due call.block)⟩ :: answers (call.next due) calls

theorem Within.block_mem {keys : Finset EntityKey} {blocks : Finset UInt64}
    {call : Call} (within : call.Within keys blocks) : call.block ∈ blocks := by
  cases call with
  | schedule block key => exact within.1
  | unschedule block key => exact within.1
  | isScheduled block key => exact within.1
  | dueAt block => exact within
  | drain block => exact within

end Call

/-- The call answers for its block, changes cells of that block's set only,
and leaves the sets of all other blocks as they are. -/
structure Answers (index : ExpiryIndex) (keys : Finset EntityKey)
    (blocks : Finset UInt64) (due : Schedule) (call : Call)
    (before after : Contents) : Prop where
  runs : (call.perform index).Runs before (call.answer (due call.block)) after
  own : before.SameOff (index.area keys call.block) after
  others : ∀ block ∈ blocks, block ≠ call.block →
    ∀ cell ∈ index.area keys block, after cell = before cell

variable {index : ExpiryIndex} {keys : Finset EntityKey}
  {blocks : Finset UInt64} {due : Schedule} {contents after : Contents}
  {list : List EntityKey} {block : UInt64} {key : EntityKey}

theorem ofWords_map_word (list : List EntityKey) :
    EntityKey.ofWords (list.map EntityKey.word) = list := by
  rw [EntityKey.ofWords, List.map_map]
  exact List.map_id list

theorem mem_map_word :
    key.word ∈ list.map EntityKey.word ↔ key ∈ list :=
  List.mem_map_of_injective EntityKey.word_injective

/-! ## One block -/

section OneBlock

variable (carries : (index.atBlock block).Carries True (words keys) keys.card
    (list.map EntityKey.word) contents)
  (separate : (index.atBlock block).Separate (words keys) keys.card)

include carries separate

theorem schedule_achieves (known : key ∈ keys) :
    (index.schedule block key).Achieves (index.area keys block) contents
      (decide (key ∉ list))
      ((index.atBlock block).Carries True (words keys) keys.card
        ((MemberList.insert key list).map EntityKey.word)) := by
  have wordKnown : key.word ∈ words keys := mem_words.mpr known
  have room : key.word ∉ list.map EntityKey.word →
      (list.map EntityKey.word).length < keys.card := by
    rw [← card_words]
    exact MemberList.length_lt_card carries.nodup carries.known wordKnown
  have added := carries.add_achieves separate wordKnown room
  rw [MemberList.insert_map EntityKey.word_injective,
    decide_eq_decide.mpr (not_congr mem_map_word)] at added
  exact added

theorem unschedule_achieves (known : key ∈ keys) :
    (index.unschedule block key).Achieves (index.area keys block) contents
      (decide (key ∈ list))
      ((index.atBlock block).Carries True (words keys) keys.card
        ((MemberList.swapRemove key list).map EntityKey.word)) := by
  have removed := carries.remove_achieves separate (mem_words.mpr known)
  rw [MemberList.swapRemove_map EntityKey.word_injective,
    decide_eq_decide.mpr mem_map_word] at removed
  exact removed

theorem isScheduled_runs (known : key ∈ keys) :
    (index.isScheduled block key).Runs contents (decide (key ∈ list))
      contents := by
  have contained := carries.runs_contains separate (mem_words.mpr known)
  rw [decide_eq_decide.mpr mem_map_word] at contained
  exact contained

theorem dueAt_runs : (index.dueAt block).Runs contents list contents := by
  have listed : (index.dueAt block).Runs contents
      (EntityKey.ofWords (list.map EntityKey.word)) contents :=
    (carries.runs_toList separate).bind (.pure _ contents)
  rwa [ofWords_map_word] at listed

theorem drain_achieves :
    (index.drain block).Achieves (index.area keys block) contents list
      ((index.atBlock block).Carries True (words keys) keys.card []) := by
  apply (dueAt_runs carries separate).bind_achieves
  apply (carries.clear_achieves separate).bind (Set.Subset.refl _)
  exact fun between same emptied => .pure _ _ emptied

end OneBlock

/-- A call works on the list of its block. -/
theorem Call.perform_achieves {call : Call}
    (carries : (index.atBlock call.block).Carries True (words keys) keys.card
      (list.map EntityKey.word) contents)
    (separate : (index.atBlock call.block).Separate (words keys) keys.card)
    (within : call.Within keys blocks) :
    (call.perform index).Achieves (index.area keys call.block) contents
      (call.answer list)
      ((index.atBlock call.block).Carries True (words keys) keys.card
        ((call.change list).map EntityKey.word)) := by
  cases call with
  | schedule block key => exact schedule_achieves carries separate within.2
  | unschedule block key => exact unschedule_achieves carries separate within.2
  | isScheduled block key =>
      exact (isScheduled_runs carries separate within.2).achieves (.refl _ _)
        carries
  | dueAt block =>
      exact (dueAt_runs carries separate).achieves (.refl _ _) carries
  | drain block => exact drain_achieves carries separate

/-! ## All blocks -/

/-- What changes cells of one set only is not seen by the other sets. -/
theorem Apart.same_other (apart : index.Apart keys blocks)
    (known : block ∈ blocks)
    (same : contents.SameOff (index.area keys block) after) :
    ∀ other ∈ blocks, other ≠ block → ∀ cell ∈ index.area keys other,
      after cell = contents cell := by
  intro other otherKnown different cell inside
  exact same cell
    (apart.disjoint other otherKnown block known different cell inside)

theorem Holds.update (holds : index.Holds keys blocks due contents)
    (apart : index.Apart keys blocks) (known : block ∈ blocks)
    (same : contents.SameOff (index.area keys block) after)
    (carries : (index.atBlock block).Carries True (words keys) keys.card
      (list.map EntityKey.word) after) :
    index.Holds keys blocks (Function.update due block list) after := by
  intro other otherKnown
  apply EnumerableSet.holds_iff_carries.mpr
  by_cases here : other = block
  · rw [here, Function.update_self]
    exact carries
  · rw [Function.update_of_ne here]
    exact (EnumerableSet.holds_iff_carries.mp (holds other otherKnown)).congr
      (apart.same_other known same other otherKnown here)

/-- One call changes the list of its block, and the sets with it. -/
theorem Holds.perform_step (holds : index.Holds keys blocks due contents)
    (apart : index.Apart keys blocks) {call : Call}
    (within : call.Within keys blocks) :
    ∃ after, index.Answers keys blocks due call contents after ∧
      index.Holds keys blocks (call.next due) after := by
  have known := within.block_mem
  have carries :=
    EnumerableSet.holds_iff_carries.mp (holds call.block known)
  obtain ⟨after, runs, same, changed⟩ :=
    call.perform_achieves carries (apart.separate call.block known) within
  exact ⟨after, ⟨runs, same, apart.same_other known same⟩,
    holds.update apart known same changed⟩

theorem Holds.run_attempts (apart : index.Apart keys blocks)
    {calls : List Call} (within : ∀ call ∈ calls, call.Within keys blocks)
    (holds : index.Holds keys blocks due contents) :
    ∃ after,
      (Action.attempts (Call.tell index) calls).run Contents.backend
          contents = ((Call.answers due calls).map .ok, after) ∧
        contents.SameOff {cell | ∃ block ∈ blocks, cell ∈ index.area keys block}
          after ∧
        index.Holds keys blocks (Call.scheduleAfter due calls) after := by
  induction calls generalizing due contents with
  | nil => exact ⟨contents, rfl, .refl _ _, holds⟩
  | cons call calls induction =>
      have here := within call List.mem_cons_self
      obtain ⟨between, answered, reached⟩ := holds.perform_step apart here
      obtain ⟨after, laterRuns, laterSame, laterReached⟩ :=
        induction (fun later member =>
          within later (List.mem_cons_of_mem call member)) reached
      have told : (call.tell index).Runs contents
          ⟨call, call.answer (due call.block)⟩ between :=
        answered.runs.bind (.pure _ between)
      have same : contents.SameOff
          {cell | ∃ block ∈ blocks, cell ∈ index.area keys block} between :=
        answered.own.mono
          fun cell inside => ⟨call.block, here.block_mem, inside⟩
      exact ⟨after, Action.run_attempts_cons told laterRuns,
        same.trans laterSame, laterReached⟩

theorem Holds.drained (holds : index.Holds keys blocks due contents)
    (apart : index.Apart keys blocks) (known : block ∈ blocks) :
    ∃ after, (index.drain block).Runs contents (due block) after ∧
      ∀ cell ∈ index.area keys block, after cell = 0 := by
  have carries := EnumerableSet.holds_iff_carries.mp (holds block known)
  obtain ⟨after, runs, _, emptied⟩ :=
    drain_achieves carries (apart.separate block known)
  exact ⟨after, runs, fun cell inside => emptied.eq_zero inside⟩

theorem Holds.of_empty
    (empty : ∀ block ∈ blocks, ∀ cell ∈ index.area keys block,
      contents cell = 0) :
    index.Holds keys blocks Schedule.empty contents := by
  intro block known
  exact EnumerableSet.holds_iff_carries.mpr
    (.of_empty fun cell inside => empty block known cell inside)

/-- On cells that start empty, every run of calls answers like lists of keys
and ends in the cells of these lists.  Whatever call comes next, it leaves the
sets of other blocks alone, and draining a block empties all its cells. -/
theorem attempts_refine_schedule (index : ExpiryIndex)
    (keys : Finset EntityKey) (blocks : Finset UInt64) (calls : List Call)
    (before : Contents) (apart : index.Apart keys blocks)
    (within : ∀ call ∈ calls, call.Within keys blocks)
    (empty : ∀ block ∈ blocks, ∀ cell ∈ index.area keys block,
      before cell = 0) :
    let due := Call.scheduleAfter Schedule.empty calls
    ∃ after,
      (Action.attempts (Call.tell index) calls).run Contents.backend before =
        ((Call.answers Schedule.empty calls).map .ok, after) ∧
      before.SameOff {cell | ∃ block ∈ blocks, cell ∈ index.area keys block}
        after ∧
      index.Holds keys blocks due after ∧
      (∀ call : Call, call.Within keys blocks →
        ∃ later, index.Answers keys blocks due call after later) ∧
      ∀ block ∈ blocks,
        ∃ later, (index.drain block).Runs after (due block) later ∧
          ∀ cell ∈ index.area keys block, later cell = 0 := by
  intro due
  obtain ⟨after, runs, same, holds⟩ :=
    Holds.run_attempts apart within (Holds.of_empty empty)
  refine ⟨after, runs, same, holds, ?_, ?_⟩
  · intro call callWithin
    obtain ⟨later, answered, _⟩ := holds.perform_step apart callWithin
    exact ⟨later, answered⟩
  · exact fun block known => holds.drained apart known

end ExpiryIndex

namespace EntityStore

/-- What an entity store asks of the hash function is enough for its expiry
index. -/
theorem Site.Spread.expiry_apart {site : Site} {scope : Scope}
    (spread : site.Spread scope) :
    (ExpiryIndex.mk site.storage site.hasher).Apart scope.keys
      scope.blocks := by
  have within : ∀ block ∈ scope.blocks, (SetName.due block).Within scope :=
    fun block known => known
  refine ⟨fun block known => spread.separate (within block known), ?_⟩
  intro left leftKnown right rightKnown different cell inside
  apply spread.apart (within left leftKnown).part (within right rightKnown).part
    _ inside
  exact fun same => different (by injection same with same; injection same)

end EntityStore

/-- Under Keccak-256 a key is scheduled at two blocks, of which one loses it
and the other is drained. -/
theorem ExpiryIndex.attempts_refine_schedule_keccak :
    let index : ExpiryIndex :=
      ⟨.storageProcessor, HashAlgorithm.keccak256.hasher⟩
    let keys : Finset EntityKey := [⟨0⟩, ⟨7⟩].toFinset
    let blocks : Finset UInt64 := [5, 9].toFinset
    let calls : List Call :=
      [.schedule 9 ⟨7⟩, .schedule 9 ⟨0⟩, .schedule 5 ⟨7⟩, .schedule 9 ⟨7⟩,
        .unschedule 9 ⟨7⟩, .dueAt 9, .drain 5, .isScheduled 5 ⟨7⟩]
    index.Apart keys blocks ∧ (∀ call ∈ calls, call.Within keys blocks) ∧
    ∃ after,
      (Action.attempts (Call.tell index) calls).run Contents.backend
          Contents.empty =
        ([.ok ⟨.schedule 9 ⟨7⟩, true⟩, .ok ⟨.schedule 9 ⟨0⟩, true⟩,
          .ok ⟨.schedule 5 ⟨7⟩, true⟩, .ok ⟨.schedule 9 ⟨7⟩, false⟩,
          .ok ⟨.unschedule 9 ⟨7⟩, true⟩, .ok ⟨.dueAt 9, [⟨0⟩]⟩,
          .ok ⟨.drain 5, [⟨7⟩]⟩, .ok ⟨.isScheduled 5 ⟨7⟩, false⟩], after) ∧
      index.Holds keys blocks (Call.scheduleAfter Schedule.empty calls)
        after := by
  intro index keys blocks calls
  have apart : index.Apart keys blocks :=
    EntityStore.keccak_spread.expiry_apart
  have within : ∀ call ∈ calls, call.Within keys blocks := by decide +kernel
  refine ⟨apart, within, ?_⟩
  obtain ⟨after, runs, _, holds, _⟩ := attempts_refine_schedule index keys
    blocks calls Contents.empty apart within (fun _ _ _ _ => rfl)
  exact ⟨after, runs, holds⟩

end SlotStorage
