import Mathlib.Algebra.BigOperators.Finprod
import Mathlib.Data.List.Sort
import Mathlib.Data.Set.Card
import SlotStorage.Proofs.Integers
import SlotStorage.Proofs.Isolation

/-!
# The store in memory as a total function

The calls made on a store in memory decide one word for every cell, the one
last written to it.  The store holds exactly the cells whose word is not zero,
once each and in order.  So its counts and listings are those of the function,
and two stores of the same words cannot be told apart.
-/

namespace SlotStorage

namespace Contents

/-- The cells that are not empty. -/
def live (contents : Contents) : Set Cell :=
  {cell | contents cell ≠ 0}

/-- The slots of a namespace that are not empty. -/
def liveIn (contents : Contents) (space : Namespace) : Set Slot :=
  {slot | contents ⟨space, slot⟩ ≠ 0}

end Contents

/-- A list without repetition is as long as the set that it lists. -/
theorem encard_of_nodup {α : Type} [DecidableEq α] {list : List α}
    {set : Set α} (nodup : list.Nodup)
    (listed : ∀ element, element ∈ list ↔ element ∈ set) :
    set.encard = list.length := by
  have elements : set = ↑list.toFinset := by
    ext element
    simp [listed]
  rw [elements, Set.encard_coe_eq_coe_finsetCard,
    List.toFinset_card_of_nodup nodup]

/-- Elements whose ranks ascend are not repeated. -/
theorem nodup_of_ascending {α : Type} {list : List α} {rank : α → Nat}
    (ascending : list.Pairwise fun first second => rank first < rank second) :
    list.Nodup := by
  apply ascending.imp
  rintro first second before rfl
  exact Nat.lt_irrefl _ before

namespace Entries

variable {entries : Entries} {cell : Cell} {word : Word}

theorem mem_of_get (nonzero : get cell entries ≠ 0) :
    (cell, get cell entries) ∈ entries := by
  induction entries with
  | nil => exact absurd rfl nonzero
  | cons entry rest induction =>
      by_cases here : entry.1 = cell
      · have found : get cell (entry :: rest) = entry.2 := if_pos here
        rw [found, ← here]
        exact List.mem_cons_self
      · have later : get cell (entry :: rest) = get cell rest := if_neg here
        rw [later] at nonzero ⊢
        exact List.mem_cons_of_mem entry (induction nonzero)

theorem get_of_mem (ascending : entries.Ascending)
    (member : (cell, word) ∈ entries) : get cell entries = word := by
  induction entries with
  | nil => exact absurd member List.not_mem_nil
  | cons entry rest induction =>
      obtain ⟨first, others⟩ := List.pairwise_cons.mp ascending
      rcases List.mem_cons.mp member with rfl | later
      · exact if_pos rfl
      · have different : entry.1 ≠ cell := by
          intro same
          have before := first _ later
          rw [same] at before
          exact Nat.lt_irrefl _ before
        exact (if_neg different).trans (induction others later)

end Entries

namespace MemoryStore

variable {store left right : MemoryStore} {cell : Cell} {word : Word}
  {space : Namespace} {slot : Slot}

/-! ## What is held -/

/-- A cell is held with its word exactly if that is not zero. -/
theorem mem_entries_iff :
    (cell, word) ∈ store.entries ↔ word = store.contents cell ∧ word ≠ 0 := by
  constructor
  · intro member
    exact ⟨(Entries.get_of_mem store.ascending member).symm,
      store.nonzero _ member⟩
  · rintro ⟨rfl, nonzero⟩
    exact Entries.mem_of_get nonzero

/-- The words of all cells decide the store. -/
theorem eq_of_contents_eq (same : left.contents = right.contents) :
    left = right := by
  let Before (first second : Cell × Word) : Prop :=
    first.1.rank < second.1.rank
  have irreflexive : Std.Irrefl Before := ⟨fun _ => Nat.lt_irrefl _⟩
  have antisymmetric : Std.Antisymm Before :=
    ⟨fun _ _ before after => absurd before (Nat.lt_asymm after)⟩
  have entries : left.entries = right.entries := by
    apply List.Pairwise.eq_of_mem_iff left.ascending right.ascending
    rintro ⟨cell, word⟩
    rw [mem_entries_iff, mem_entries_iff, same]
  obtain ⟨entriesLeft, _, _⟩ := left
  obtain ⟨entriesRight, _, _⟩ := right
  obtain rfl : entriesLeft = entriesRight := entries
  rfl

/-- The cells that are held. -/
def cells (store : MemoryStore) : List Cell :=
  store.entries.map Prod.fst

theorem mem_cells_iff : cell ∈ store.cells ↔ store.contents cell ≠ 0 := by
  constructor
  · intro member
    obtain ⟨⟨cell, word⟩, held, rfl⟩ := List.mem_map.mp member
    obtain ⟨rfl, nonzero⟩ := mem_entries_iff.mp held
    exact nonzero
  · intro nonzero
    exact List.mem_map.mpr ⟨_, mem_entries_iff.mpr ⟨rfl, nonzero⟩, rfl⟩

theorem pairwise_cells (store : MemoryStore) :
    store.cells.Pairwise fun first second => first.rank < second.rank :=
  List.pairwise_map.mpr store.ascending

theorem nodup_cells (store : MemoryStore) : store.cells.Nodup :=
  nodup_of_ascending store.pairwise_cells

/-! ## Counts and listings -/

theorem encard_live (store : MemoryStore) :
    store.contents.live.encard = store.size := by
  have counted : store.contents.live.encard = store.cells.length :=
    encard_of_nodup store.nodup_cells fun cell => mem_cells_iff
  rw [counted, cells, List.length_map, size]

theorem describe_eq (store : MemoryStore) :
    store.describe = "InMemorySlotStore \x7b live_slots: " ++
      toString store.contents.live.ncard ++ " \x7d" := by
  rw [Set.ncard, encard_live, ENat.toNat_natCast]
  rfl

theorem isEmpty_iff : store.isEmpty ↔ ∀ cell, store.contents cell = 0 := by
  rw [isEmpty, List.isEmpty_iff]
  constructor
  · intro empty cell
    by_contra nonzero
    have held := mem_entries_iff.mpr ⟨rfl, nonzero⟩
    rw [empty] at held
    exact List.not_mem_nil held
  · intro zeros
    apply List.eq_nil_iff_forall_not_mem.mpr
    rintro ⟨cell, word⟩ member
    obtain ⟨rfl, nonzero⟩ := mem_entries_iff.mp member
    exact nonzero (zeros cell)

/-- The slots of a namespace, in the order of the cells. -/
def held (store : MemoryStore) (space : Namespace) : List Slot :=
  (store.cells.filter fun cell => cell.space = space).map Cell.slot

/-- Within a namespace the order of the cells is the order of the slots. -/
theorem pairwise_held (store : MemoryStore) (space : Namespace) :
    (store.held space).Pairwise
      fun first second => first.toNat < second.toNat := by
  rw [held, List.pairwise_map]
  apply (store.pairwise_cells.filter _).imp_of_mem
  intro first second firstMember secondMember before
  have firstInside := of_decide_eq_true (List.mem_filter.mp firstMember).2
  have secondInside := of_decide_eq_true (List.mem_filter.mp secondMember).2
  rw [Cell.rank, Cell.rank, firstInside, secondInside] at before
  omega

/-- Sorting by bytes is sorting by integers, and so the cells are in order. -/
theorem slotsIn_eq (store : MemoryStore) (space : Namespace) :
    store.slotsIn space = store.held space := by
  have collected : (store.entries.filter fun entry =>
      entry.1.space = space).map (fun entry => entry.1.slot) =
        store.held space := by
    rw [held, cells, List.filter_map, List.map_map]
    rfl
  simp only [slotsIn, collected]
  apply List.mergeSort_of_pairwise
  apply (store.pairwise_held space).imp
  intro first second before
  rw [Slot.compare_eq_compare_toNat, Nat.compare_eq_lt.mpr before]
  rfl

theorem mem_slotsIn_iff :
    slot ∈ store.slotsIn space ↔ store.contents ⟨space, slot⟩ ≠ 0 := by
  rw [slotsIn_eq, ← mem_cells_iff]
  constructor
  · intro member
    obtain ⟨⟨space, slot⟩, listed, rfl⟩ := List.mem_map.mp member
    obtain ⟨held, inside⟩ := List.mem_filter.mp listed
    obtain rfl := of_decide_eq_true inside
    exact held
  · intro held
    exact List.mem_map.mpr
      ⟨_, List.mem_filter.mpr ⟨held, decide_eq_true rfl⟩, rfl⟩

theorem pairwise_slotsIn (store : MemoryStore) (space : Namespace) :
    (store.slotsIn space).Pairwise
      fun first second => first.toNat < second.toNat := by
  rw [slotsIn_eq]
  exact store.pairwise_held space

theorem nodup_slotsIn (store : MemoryStore) (space : Namespace) :
    (store.slotsIn space).Nodup :=
  nodup_of_ascending (store.pairwise_slotsIn space)

theorem length_slotsIn (store : MemoryStore) (space : Namespace) :
    (store.slotsIn space).length = store.liveSlots space := by
  rw [slotsIn, List.length_mergeSort, List.length_map, liveSlots,
    List.countP_eq_length_filter]

theorem encard_liveIn (store : MemoryStore) (space : Namespace) :
    (store.contents.liveIn space).encard = store.liveSlots space := by
  have counted : (store.contents.liveIn space).encard =
      (store.slotsIn space).length :=
    encard_of_nodup (store.nodup_slotsIn space) fun slot => mem_slotsIn_iff
  rw [counted, length_slotsIn]

/-- The counts of all namespaces together count the cells. -/
theorem size_eq_finsum (store : MemoryStore) :
    store.size = ∑ᶠ space, store.liveSlots space := by
  let spaces := store.cells.map Cell.space
  have counted : ∀ space, store.liveSlots space = spaces.count space := by
    intro space
    rw [List.count, List.countP_map, cells, List.countP_map, liveSlots]
    apply List.countP_congr
    simp
  have support : Function.support store.liveSlots ⊆ spaces.toFinset := by
    intro space inhabited
    rw [Function.mem_support, counted] at inhabited
    exact List.mem_toFinset.mpr
      (List.count_pos_iff.mp (Nat.pos_of_ne_zero inhabited))
  rw [finsum_eq_finsetSum_of_support_subset _ support]
  simp only [counted]
  rw [List.sum_toFinset_count_eq_length, List.length_map, cells,
    List.length_map, size]

/-! ## Calls -/

/-- A call on a store in memory: on one of its cells, or on all of them. -/
inductive Call where
  | onCell (cell : Cell) (call : Cell.Call)
  | clearAll
  | size
  | isEmpty
  | liveSlots (space : Namespace)
  | slotsIn (space : Namespace)
  | describe
  deriving DecidableEq

namespace Call

def Answer : Call → Type
  | .onCell _ call => Except StoreError call.Answer
  | .clearAll => Unit
  | .size | .liveSlots _ => Nat
  | .isEmpty => Bool
  | .slotsIn _ => List Slot
  | .describe => String

/-- The answer to the call, and the store after it. -/
def perform : (call : Call) → MemoryStore → call.Answer × MemoryStore
  | .onCell cell call, store => (call.perform cell).runOn backend store
  | .clearAll, store => ((), store.clearAll)
  | .size, store => (store.size, store)
  | .isEmpty, store => (store.isEmpty, store)
  | .liveSlots space, store => (store.liveSlots space, store)
  | .slotsIn space, store => (store.slotsIn space, store)
  | .describe, store => (store.describe, store)

/-- The word that the call writes to the cell, if it writes one. -/
def writes? (cell : Cell) : Call → Option Word
  | .onCell other (.set value) => if other = cell then some value else none
  | .onCell other .clear => if other = cell then some 0 else none
  | .clearAll => some 0
  | _ => none

/-- What the cells hold after calls on an empty store: the word that was
written last, or zero. -/
def written (calls : List Call) : Contents :=
  fun cell => (calls.reverse.findSome? (writes? cell)).getD 0

/-- What the call has to answer when the cells hold the contents. -/
def Answered (contents : Contents) : (call : Call) → call.Answer → Prop
  | .onCell cell .get, answer => answer = .ok (contents cell)
  | .onCell cell (.set _), answer => answer = .ok (contents cell)
  | .onCell cell .clear, answer => answer = .ok (contents cell)
  | .onCell cell .isEmpty, answer => answer = .ok (decide (contents cell = 0))
  | .clearAll, _ => True
  | .size, (count : Nat) => contents.live.encard = count
  | .isEmpty, (truth : Bool) => truth ↔ ∀ cell, contents cell = 0
  | .liveSlots space, (count : Nat) => (contents.liveIn space).encard = count
  | .slotsIn space, (slots : List Slot) =>
    slots.Pairwise (fun first second => first.toNat < second.toNat) ∧
      ∀ slot, slot ∈ slots ↔ contents ⟨space, slot⟩ ≠ 0
  | .describe, text =>
    text = "InMemorySlotStore \x7b live_slots: " ++
      toString contents.live.ncard ++ " \x7d"

theorem written_concat (calls : List Call) (call : Call) (cell : Cell) :
    written (calls ++ [call]) cell =
      (call.writes? cell).getD (written calls cell) := by
  unfold written
  rw [List.reverse_concat, List.findSome?_cons]
  cases call.writes? cell <;> rfl

/-- Every call is answered from the words of the cells alone. -/
theorem answered_perform (store : MemoryStore) (call : Call) :
    call.Answered store.contents (call.perform store).1 := by
  cases call with
  | onCell cell call => cases call <;> rfl
  | clearAll => trivial
  | size => exact store.encard_live
  | isEmpty => exact isEmpty_iff
  | liveSlots space => exact store.encard_liveIn space
  | slotsIn space =>
      exact ⟨store.pairwise_slotsIn space, fun slot => mem_slotsIn_iff⟩
  | describe => exact store.describe_eq

/-- A call changes the cells that it writes to and no others. -/
theorem contents_perform (store : MemoryStore) (call : Call) (cell : Cell) :
    (call.perform store).2.contents cell =
      (call.writes? cell).getD (store.contents cell) := by
  have writing : ∀ (other : Cell) (value : Word),
      (store.set other value).contents cell =
        (if other = cell then some value else none).getD
          (store.contents cell) := by
    intro other value
    rw [contents_set]
    by_cases same : other = cell
    · rw [if_pos same, same, Contents.set_same]
      rfl
    · rw [if_neg same, Contents.set_other (Ne.symm same)]
      rfl
  cases call with
  | onCell other call =>
      cases call with
      | get => rfl
      | set value => exact writing other value
      | clear => exact writing other 0
      | isEmpty => rfl
  | clearAll => rfl
  | size => rfl
  | isEmpty => rfl
  | liveSlots space => rfl
  | slotsIn space => rfl
  | describe => rfl

end Call

/-- The store after calls on an empty one. -/
def after (calls : List Call) : MemoryStore :=
  calls.foldl (fun store call => (call.perform store).2) empty

/-- The store holds what was written last. -/
theorem contents_after (calls : List Call) :
    (after calls).contents = Call.written calls := by
  induction calls using List.reverseRecOn with
  | nil => exact contents_empty
  | append_singleton calls call induction =>
      funext cell
      rw [after, List.foldl_concat, Call.contents_perform,
        Call.written_concat, ← induction]
      rfl

/-- After any calls on an empty store, a cell is held exactly if the word that
was last written to it is not zero; the next call is answered from those words;
and calls that lead to the same words are as good as these for all that may
follow. -/
theorem calls_refine_contents (calls : List Call) :
    (after calls).contents = Call.written calls ∧
    (∀ cell word, (cell, word) ∈ (after calls).entries ↔
      word = Call.written calls cell ∧ word ≠ 0) ∧
    (after calls).cells.Nodup ∧
    (after calls).size = ∑ᶠ space, (after calls).liveSlots space ∧
    (∀ call : Call, call.Answered (Call.written calls)
      (call.perform (after calls)).1) ∧
    ∀ others, Call.written others = Call.written calls → ∀ later call,
      (Call.perform call (after (others ++ later))).1 =
        (Call.perform call (after (calls ++ later))).1 := by
  have contents := contents_after calls
  refine ⟨contents, ?_, (after calls).nodup_cells,
    (after calls).size_eq_finsum, ?_, ?_⟩
  · intro cell word
    rw [mem_entries_iff, contents]
  · intro call
    rw [← contents]
    exact call.answered_perform (after calls)
  · intro others same later call
    have stores : after others = after calls := by
      apply eq_of_contents_eq
      rw [contents_after, contents, same]
    unfold after at stores ⊢
    rw [List.foldl_append, List.foldl_append, stores]

/-- A cell that is emptied again and one that was never written to after
everything was dropped leave the same store. -/
theorem calls_refine_contents_emptied :
    let low : Cell := ⟨.storageProcessor, ⟨1⟩⟩
    let high : Cell := ⟨.registryProcessor, ⟨0⟩⟩
    let calls : List Call := [.onCell low (.set 9), .onCell high (.set 7),
      .onCell low .clear]
    let others : List Call := [.onCell low (.set 1), .clearAll,
      .onCell low (.set 0), .onCell high (.set 7)]
    Call.written others = Call.written calls ∧
    (after calls).size = 1 ∧
    ∀ later call, (Call.perform call (after (others ++ later))).1 =
      (Call.perform call (after (calls ++ later))).1 := by
  intro low high calls others
  have same : Call.written others = Call.written calls := by
    funext cell
    by_cases isLow : low = cell
    · subst isLow
      decide
    · by_cases isHigh : high = cell
      · subst isHigh
        decide
      · simp [Call.written, Call.writes?, List.findSome?, calls, others, isLow,
          isHigh]
  exact ⟨same, by decide,
    (calls_refine_contents calls).2.2.2.2.2 others same⟩

end MemoryStore

end SlotStorage
