import SlotStorage.Store.Backend

/-!
# The store in memory

A finite map that holds exactly the cells whose word is not zero, in the order
of their addresses.  A cell that is not held reads as zero, and writing zero
drops the cell.
-/

namespace SlotStorage

/-- The held cells with their words. -/
abbrev Entries := List (Cell × Word)

namespace Entries

def Ascending (entries : Entries) : Prop :=
  entries.Pairwise fun left right => left.1.rank < right.1.rank

/-- The word at a cell: zero unless the cell is held. -/
def get (cell : Cell) : Entries → Word
  | [] => 0
  | entry :: rest => if entry.1 = cell then entry.2 else get cell rest

/-- The entries after a write.  A zero drops the cell. -/
def set (cell : Cell) (value : Word) : Entries → Entries
  | [] => if value = 0 then [] else [(cell, value)]
  | entry :: rest =>
    if entry.1.rank < cell.rank then entry :: set cell value rest
    else
      let others := if entry.1 = cell then rest else entry :: rest
      if value = 0 then others else (cell, value) :: others

variable {cell other : Cell} {value : Word} {entries others : Entries}

theorem mem_set {entry : Cell × Word}
    (member : entry ∈ set cell value entries) :
    entry ∈ entries ∨ (entry = (cell, value) ∧ value ≠ 0) := by
  induction entries with
  | nil =>
      by_cases zero : value = 0
      · simp [set, zero] at member
      · simp only [set, zero, if_false, List.mem_singleton] at member
        exact .inr ⟨member, zero⟩
  | cons first rest induction =>
      have kept : entry ∈ (if first.1 = cell then rest else first :: rest) →
          entry ∈ first :: rest := by
        intro member
        split at member
        · exact List.mem_cons_of_mem first member
        · exact member
      simp only [set] at member
      split at member
      · rcases List.mem_cons.mp member with rfl | later
        · exact .inl List.mem_cons_self
        · exact (induction later).imp_left (List.mem_cons_of_mem first)
      · split at member
        · exact .inl (kept member)
        next nonzero =>
          rcases List.mem_cons.mp member with new | old
          · exact .inr ⟨new, nonzero⟩
          · exact .inl (kept old)

theorem ascending_set (ascending : entries.Ascending) :
    (set cell value entries).Ascending := by
  induction entries with
  | nil =>
      simp only [set]
      split
      · exact List.Pairwise.nil
      · exact List.pairwise_singleton _ _
  | cons first rest induction =>
      obtain ⟨before, rising⟩ := List.pairwise_cons.mp ascending
      simp only [set]
      split
      next lower =>
        refine List.pairwise_cons.mpr ⟨?_, induction rising⟩
        intro entry member
        rcases mem_set member with old | ⟨rfl, _⟩
        · exact before entry old
        · exact lower
      next notLower =>
        have remaining :
            Ascending (if first.1 = cell then rest else first :: rest) := by
          split
          · exact rising
          · exact ascending
        split
        · exact remaining
        · refine List.pairwise_cons.mpr ⟨?_, remaining⟩
          intro entry member
          change cell.rank < entry.1.rank
          split at member
          next same => exact same ▸ before entry member
          next different =>
            have ranks : first.1.rank ≠ cell.rank :=
              fun same => different (Cell.rank_injective same)
            rcases List.mem_cons.mp member with rfl | later
            · omega
            · have higher := before entry later
              omega

theorem get_eq_zero_of_before
    (before : ∀ entry ∈ entries, cell.rank < entry.1.rank) :
    get cell entries = 0 := by
  induction entries with
  | nil => rfl
  | cons first rest induction =>
      have higher : cell.rank < first.1.rank := before first List.mem_cons_self
      have different : first.1 ≠ cell := by
        intro same
        rw [same] at higher
        exact Nat.lt_irrefl _ higher
      rw [get, if_neg different]
      exact induction fun entry member =>
        before entry (List.mem_cons_of_mem first member)

/-- Putting a cell in front of entries that do not hold it. -/
theorem get_front (absent : get cell others = 0) :
    get other (if value = 0 then others else (cell, value) :: others) =
      if other = cell then value else get other others := by
  by_cases same : other = cell
  · rw [same, if_pos rfl]
    by_cases zero : value = 0
    · rw [if_pos zero, absent, zero]
    · rw [if_neg zero, get, if_pos rfl]
  · rw [if_neg same]
    by_cases zero : value = 0
    · rw [if_pos zero]
    · rw [if_neg zero, get, if_neg (Ne.symm same)]

/-- A write changes the word of its own cell and no other. -/
theorem get_set (ascending : entries.Ascending) :
    get other (set cell value entries) =
      if other = cell then value else get other entries := by
  induction entries with
  | nil => exact get_front rfl
  | cons first rest induction =>
      obtain ⟨before, rising⟩ := List.pairwise_cons.mp ascending
      by_cases lower : first.1.rank < cell.rank
      · have different : first.1 ≠ cell := by
          intro same
          rw [same] at lower
          exact Nat.lt_irrefl _ lower
        rw [set, if_pos lower, get, get, induction rising]
        by_cases here : first.1 = other
        · rw [if_pos here, if_pos here, if_neg (here ▸ different)]
        · rw [if_neg here, if_neg here]
      · simp only [set, if_neg lower]
        by_cases replaced : first.1 = cell
        · have absent : get cell rest = 0 :=
            get_eq_zero_of_before (replaced ▸ before)
          rw [if_pos replaced, get_front absent]
          by_cases same : other = cell
          · rw [if_pos same, if_pos same]
          · have elsewhere : first.1 ≠ other :=
              fun here => same (here.symm.trans replaced)
            rw [if_neg same, if_neg same, get, if_neg elsewhere]
        · have ranks : first.1.rank ≠ cell.rank :=
            fun same => replaced (Cell.rank_injective same)
          have absent : get cell (first :: rest) = 0 := by
            apply get_eq_zero_of_before
            intro entry member
            rcases List.mem_cons.mp member with rfl | later
            · omega
            · have higher := before entry later
              omega
          rw [if_neg replaced]
          exact get_front absent

/-- The cells whose words differ between two lists of entries, with their later
words, in the order of the cells.  The count bounds the length of both lists
together. -/
def changes : Nat → Entries → Entries → Entries
  | _, [], later => later
  | _, earlier, [] => earlier.map fun entry => (entry.1, 0)
  | 0, _, _ => []
  | count + 1, old :: olds, new :: news =>
    if old.1.rank < new.1.rank then
      (old.1, 0) :: changes count olds (new :: news)
    else if new.1.rank < old.1.rank then new :: changes count (old :: olds) news
    else if old.2 = new.2 then changes count olds news
    else new :: changes count olds news

end Entries

/-- A finite map from cells to words that are not zero. -/
structure MemoryStore where
  entries : Entries
  ascending : entries.Ascending
  nonzero : ∀ entry ∈ entries, entry.2 ≠ 0

namespace MemoryStore

def empty : MemoryStore where
  entries := []
  ascending := List.Pairwise.nil
  nonzero := by simp

instance : Inhabited MemoryStore := ⟨empty⟩

def get (store : MemoryStore) (cell : Cell) : Word :=
  store.entries.get cell

def set (store : MemoryStore) (cell : Cell) (value : Word) : MemoryStore where
  entries := store.entries.set cell value
  ascending := Entries.ascending_set store.ascending
  nonzero := by
    intro entry member
    rcases Entries.mem_set member with old | ⟨rfl, nonzero⟩
    · exact store.nonzero entry old
    · exact nonzero

/-- Drops every cell of every namespace. -/
def clearAll (_store : MemoryStore) : MemoryStore :=
  empty

def size (store : MemoryStore) : Nat :=
  store.entries.length

def isEmpty (store : MemoryStore) : Bool :=
  store.entries.isEmpty

/-- The slots of a namespace that are held, sorted by their bytes. -/
def slotsIn (store : MemoryStore) (space : Namespace) : List Slot :=
  let held := store.entries.filter fun entry => entry.1.space = space
  let slots := held.map fun entry => entry.1.slot
  slots.mergeSort fun first second => (first.compare second).isLE

def liveSlots (store : MemoryStore) (space : Namespace) : Nat :=
  store.entries.countP fun entry => entry.1.space = space

/-- The store as text: only the count of its cells. -/
def describe (store : MemoryStore) : String :=
  "InMemorySlotStore \x7b live_slots: " ++ toString store.size ++ " \x7d"

/-- The cells whose words differ from those of an earlier store, with their
present words. -/
def changesSince (store earlier : MemoryStore) : Entries :=
  Entries.changes (earlier.size + store.size) earlier.entries store.entries

def contents (store : MemoryStore) : Contents :=
  store.get

theorem contents_empty : empty.contents = Contents.empty :=
  rfl

/-- The store in memory holds what a total function from cells to words holds
after the same writes. -/
theorem contents_set (store : MemoryStore) (cell : Cell) (value : Word) :
    (store.set cell value).contents = store.contents.set cell value := by
  funext other
  exact Entries.get_set store.ascending

def backend : Backend MemoryStore where
  read cell store := (.ok (store.get cell), store)
  write cell value store := (.ok (store.get cell), store.set cell value)

end MemoryStore

end SlotStorage
