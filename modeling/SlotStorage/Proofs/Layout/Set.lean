import SlotStorage.Layout.Set
import SlotStorage.Proofs.Layout.Cursor
import SlotStorage.Proofs.Layout.MemberList

/-!
# Enumerable sets as lists

A set holds a list without repetition when its array holds the list and the
position cell of every known word holds the word's place in it.  The cells of
the array and of the positions must not meet; that is all the operations need
to know about the hash function.

Removing and clearing are followed write by write, with what the set is like
in between, so that they are known on a store that may fail as well.
-/

namespace SlotStorage

namespace EnumerableSet

open MemberList

/-- The cell of a word's position. -/
def positionCell (set : EnumerableSet) (value : Word) : Cell :=
  set.positions.cellFor value

/-- The array has room, and the positions of the known words lie apart from
the array and from each other. -/
structure Separate (set : EnumerableSet) (words : Set Word)
    (capacity : Nat) : Prop where
  fits : set.members.Fits capacity
  distinct : ∀ left ∈ words, ∀ right ∈ words,
    set.positionCell left = set.positionCell right → left = right
  apart : ∀ value ∈ words,
    set.positionCell value ∉ set.members.area capacity

/-- All cells that the operations on known words may change. -/
def area (set : EnumerableSet) (words : Set Word) (capacity : Nat) :
    Set Cell :=
  set.members.area capacity ∪ set.positionCell '' words

/-- The set stands for the list, cell for cell. -/
structure Holds (set : EnumerableSet) (words : Set Word) (capacity : Nat)
    (list : List Word) (contents : Contents) : Prop where
  nodup : list.Nodup
  known : ∀ value ∈ list, value ∈ words
  array : set.members.Holds capacity list contents
  positions : ∀ value ∈ words,
    contents (set.positionCell value) = Word.ofCount (placeOf value list)

/-- The set stands for the list.  Words may lie after its array, unless it is
tidy. -/
structure Carries (set : EnumerableSet) (tidy : Prop) (words : Set Word)
    (capacity : Nat) (list : List Word) (contents : Contents) : Prop where
  nodup : list.Nodup
  known : ∀ value ∈ list, value ∈ words
  array : set.members.Carries tidy capacity list contents
  positions : ∀ value ∈ words,
    contents (set.positionCell value) = Word.ofCount (placeOf value list)

variable {set : EnumerableSet} {tidy : Prop} {words : Set Word}
  {capacity index : Nat} {list : List Word} {contents after : Contents}
  {value : Word}

theorem members_area_subset (set : EnumerableSet) (words : Set Word)
    (capacity : Nat) :
    set.members.area capacity ⊆ set.area words capacity :=
  Set.subset_union_left

theorem positionCell_mem_area (known : value ∈ words) :
    set.positionCell value ∈ set.area words capacity :=
  .inr ⟨value, known, rfl⟩

theorem position_subset_area (known : value ∈ words) :
    {set.positionCell value} ⊆ set.area words capacity :=
  Set.singleton_subset_iff.mpr (positionCell_mem_area known)

theorem Separate.positionCell_ne {other : Word}
    (separate : set.Separate words capacity) (known : value ∈ words)
    (otherKnown : other ∈ words) (different : value ≠ other) :
    set.positionCell value ≠ set.positionCell other := by
  intro equality
  exact different (separate.distinct value known other otherKnown equality)

/-- A write to the array leaves the positions alone. -/
theorem Separate.set_array_position (separate : set.Separate words capacity)
    (known : value ∈ words) {cell : Cell}
    (inside : cell ∈ set.members.area capacity) (contents : Contents)
    (place : Word) :
    contents.set cell place (set.positionCell value) =
      contents (set.positionCell value) := by
  apply Contents.set_other
  rintro rfl
  exact separate.apart value known inside

/-- The contents of a position cell do not change with the array. -/
theorem Separate.position_same (separate : set.Separate words capacity)
    (known : value ∈ words)
    (same : contents.SameOff (set.members.area capacity) after) :
    after (set.positionCell value) = contents (set.positionCell value) :=
  same _ (separate.apart value known)

theorem holds_iff_carries : set.Holds words capacity list contents ↔
    set.Carries True words capacity list contents := by
  constructor
  · exact fun holds => ⟨holds.nodup, holds.known,
      DynamicArray.holds_iff_carries.mp holds.array, holds.positions⟩
  · exact fun carries => ⟨carries.nodup, carries.known,
      DynamicArray.holds_iff_carries.mpr carries.array, carries.positions⟩

theorem Carries.untidy
    (carries : set.Carries tidy words capacity list contents) :
    set.Carries False words capacity list contents :=
  ⟨carries.nodup, carries.known, carries.array.untidy, carries.positions⟩

theorem Carries.congr
    (carries : set.Carries tidy words capacity list contents)
    (same : ∀ cell ∈ set.area words capacity, after cell = contents cell) :
    set.Carries tidy words capacity list after := by
  refine ⟨carries.nodup, carries.known, ?_, ?_⟩
  · apply carries.array.congr
    intro cell inside
    exact same cell (set.members_area_subset words capacity inside)
  · intro value known
    rw [same _ (positionCell_mem_area known)]
    exact carries.positions value known

/-- Where all cells are empty, the set stands for the empty list. -/
theorem Carries.of_empty
    (empty : ∀ cell ∈ set.area words capacity, contents cell = 0) :
    set.Carries tidy words capacity [] contents := by
  have inArray : ∀ cell ∈ set.members.area capacity, contents cell = 0 :=
    fun cell inside => empty cell (set.members_area_subset _ _ inside)
  refine ⟨List.nodup_nil, ?_, ⟨Nat.zero_le _, ⟨?_, ?_⟩, ?_⟩, ?_⟩
  · exact fun value member => absurd member List.not_mem_nil
  · exact inArray _ (set.members.lengthCell_mem_area _)
  · exact fun index within => absurd within (Nat.not_lt_zero index)
  · exact fun _ index _ within =>
      inArray _ (DynamicArray.element_mem_area within)
  · exact fun value known => empty _ (positionCell_mem_area known)

theorem Carries.place_small
    (carries : set.Carries tidy words capacity list contents)
    (separate : set.Separate words capacity) (value : Word) :
    placeOf value list < Word.countBound := by
  have bounded := carries.array.bounded
  have counts := separate.fits.counts
  have place : placeOf value list ≤ list.length := placeOf_le_length
  omega

theorem Carries.position_eq_zero_iff
    (carries : set.Carries tidy words capacity list contents)
    (separate : set.Separate words capacity) (known : value ∈ words) :
    contents (set.positionCell value) = 0 ↔ value ∉ list := by
  rw [carries.positions value known,
    Word.ofCount_eq_zero_iff (carries.place_small separate value)]
  exact placeOf_eq_zero_iff

/-! ## Operations that only read -/

section Reading

variable (carries : set.Carries tidy words capacity list contents)
  (separate : set.Separate words capacity)

include carries separate

theorem Carries.reads_contains {causes : StoreError → Prop}
    {keeps : Contents → Prop} (known : value ∈ words) (kept : keeps contents) :
    Layout.Reads causes keeps (set.contains value) contents
      (decide (value ∈ list)) := by
  have answer : decide (contents (set.positionCell value) ≠ 0) =
      decide (value ∈ list) := by
    rw [decide_eq_decide, Ne, carries.position_eq_zero_iff separate known,
      not_not]
  rw [← answer]
  exact (Layout.reads_read (set.positionCell value) kept).bind
    (Layout.Reads.pure kept)

theorem Carries.runs_contains (known : value ∈ words) :
    (set.contains value).Runs contents (decide (value ∈ list)) contents :=
  (carries.reads_contains separate known trivial).runs

theorem Carries.runs_size : set.size.Runs contents list.length contents :=
  (carries.array.shown.reads_size separate.fits carries.array.bounded
    trivial).runs

theorem Carries.runs_isEmpty :
    set.isEmpty.Runs contents (decide (list = [])) contents :=
  (carries.array.shown.reads_isEmpty separate.fits carries.array.bounded
    trivial).runs

theorem Carries.runs_toList : set.toList.Runs contents list contents :=
  (carries.array.shown.reads_toList separate.fits carries.array.bounded
    trivial).runs

end Reading

/-! ## Adding -/

/-- Once the array has grown, the position completes the list. -/
theorem Carries.enter {between : Contents}
    (carries : set.Carries tidy words capacity list contents)
    (separate : set.Separate words capacity) (known : value ∈ words)
    (absent : value ∉ list)
    (same : contents.SameOff (set.members.area capacity) between)
    (grown : set.members.Carries tidy capacity (list ++ [value]) between) :
    set.Carries tidy words capacity (list ++ [value])
      (between.set (set.positionCell value)
        (Word.ofCount (list.length + 1))) := by
  constructor
  · have nodup := nodup_insert value carries.nodup
    rwa [MemberList.insert, if_neg absent] at nodup
  · intro other member
    rcases List.mem_append.mp member with earlier | last
    · exact carries.known other earlier
    · exact List.mem_singleton.mp last ▸ known
  · exact grown.set_off (separate.apart value known) _
  · intro other otherKnown
    rw [placeOf_concat absent]
    by_cases equal : other = value
    · subst other
      rw [if_pos rfl, Contents.set_same]
    · rw [if_neg equal,
        Contents.set_other (separate.positionCell_ne otherKnown known equal),
        separate.position_same otherKnown same]
      exact carries.positions other otherKnown

theorem Carries.add_achieves
    (carries : set.Carries tidy words capacity list contents)
    (separate : set.Separate words capacity) (known : value ∈ words)
    (room : value ∉ list → list.length < capacity) :
    (set.add value).Achieves (set.area words capacity) contents
      (decide (value ∉ list))
      (set.Carries tidy words capacity (MemberList.insert value list)) := by
  have contained := carries.runs_contains separate known
  unfold add
  by_cases member : value ∈ list
  · rw [decide_eq_true member] at contained
    rw [MemberList.insert, if_pos member,
      decide_eq_false (fun absent => absent member)]
    exact contained.bind_achieves (.pure _ _ carries)
  · rw [decide_eq_false member] at contained
    rw [MemberList.insert, if_neg member, decide_eq_true member]
    apply contained.bind_achieves
    apply (carries.array.append_achieves separate.fits (room member) value).bind
      (set.members_area_subset words capacity)
    intro between same grown
    have sized := (grown.shown.reads_size separate.fits grown.bounded
      trivial).runs
    rw [List.length_append] at sized
    apply sized.bind_achieves
    apply (Layout.achieves_write (set.positionCell value) _ between).bind
      (position_subset_area known)
    rintro after afterSame rfl
    exact .pure _ _ (carries.enter separate known member same grown)

/-! ## Removing -/

theorem indexOf_ofCount (set : EnumerableSet) (value : Word)
    (small : index + 1 < Word.countBound) :
    set.indexOf value (Word.ofCount (index + 1)) = pure index := by
  unfold indexOf
  rw [Word.toCount?_ofCount small]
  exact Layout.difference_eq (Nat.succ_pos index)

/-- A value without a position is not removed, whatever the array holds. -/
theorem reads_remove {causes : StoreError → Prop} {keeps : Contents → Prop}
    (set : EnumerableSet) (position : contents (set.positionCell value) = 0)
    (kept : keeps contents) :
    Layout.Reads causes keeps (set.remove value) contents false := by
  unfold remove
  apply (Layout.reads_read (set.positionCell value) kept).bind
  rw [position, if_pos rfl]
  exact Layout.Reads.pure kept

/-- A removal of a value that has its place, write by write: its position
goes, the last value is copied over it unless it is the last one itself, and
the array is shortened. -/
theorem safe_remove_placed {causes : StoreError → Prop}
    {keeps : Contents → Prop} {goal : Bool → Contents → Prop}
    (shown : set.members.Shows list contents)
    (fits : set.members.Fits capacity) (bounded : list.length ≤ capacity)
    (within : index < list.length)
    (apart : set.positionCell list[index] ∉ set.members.area capacity)
    (place : contents (set.positionCell list[index]) =
      Word.ofCount (index + 1))
    (start : keeps contents)
    (keptCleared : keeps (contents.set (set.positionCell list[index]) 0))
    (last : index = list.length - 1 →
      Layout.Safe causes keeps (do
          let _ ← set.members.removeLast
          return true)
        (contents.set (set.positionCell list[index]) 0) goal)
    (earlier : index ≠ list.length - 1 →
      let replaced := (contents.set (set.positionCell list[index]) 0).set
        (set.members.element index) list[list.length - 1]
      let moved := replaced.set (set.positionCell list[list.length - 1])
        (Word.ofCount (index + 1))
      keeps replaced ∧ keeps moved ∧
        Layout.Safe causes keeps (do
            let _ ← set.members.removeLast
            return true) moved goal) :
    Layout.Safe causes keeps (set.remove list[index]) contents goal := by
  have counts := fits.counts
  have nonzero : Word.ofCount (index + 1) ≠ 0 :=
    Word.ofCount_succ_ne_zero (by omega)
  have cleared := shown.set_off bounded apart 0
  unfold remove
  apply (Layout.reads_read (set.positionCell list[index]) start).bind
  rw [place, if_neg nonzero, indexOf_ofCount set _ (by omega)]
  apply (Layout.Reads.pure start).bind
  apply (shown.reads_size fits bounded start).bind
  rw [if_neg (by omega), Layout.difference_eq (by omega)]
  apply (Layout.Reads.pure start).bind
  apply (shown.reads_get fits bounded start (by omega)).bind
  apply (Layout.safe_write (set.positionCell list[index]) 0 start
    keptCleared).bind
  rintro _ between _ ⟨_, rfl⟩
  by_cases isLast : index = list.length - 1
  · rw [if_neg (not_not.mpr isLast)]
    exact last isLast
  · rw [if_pos isLast]
    obtain ⟨keptReplaced, keptMoved, rest⟩ := earlier isLast
    apply (cleared.safe_set fits bounded keptCleared within
      keptReplaced).bind
    rintro _ between _ ⟨_, rfl⟩
    rw [Layout.sum_eq (by omega)]
    apply (Layout.Reads.pure keptReplaced).bind
    apply (Layout.safe_write (set.positionCell list[list.length - 1]) _
      keptReplaced keptMoved).bind
    rintro _ after _ ⟨_, rfl⟩
    exact rest

/-- The state of a removal before the array is shortened: the last value lies
in the place of the removed one, and the positions are final. -/
structure Moved (set : EnumerableSet) (tidy : Prop) (words : Set Word)
    (capacity : Nat) (list : List Word) (index : Nat) (value last : Word)
    (contents : Contents) : Prop where
  array : set.members.Carries tidy capacity (list.set index last) contents
  positions : ∀ other ∈ words, contents (set.positionCell other) =
    Word.ofCount (placeOf other (swapRemove value list))

/-- A set from which a value is being removed: it is there, or it has no
position but the array is as long as before, or it is gone. -/
inductive Leaving (set : EnumerableSet) (tidy : Prop) (words : Set Word)
    (capacity : Nat) (list : List Word) (value : Word)
    (contents : Contents) : Prop where
  | there (carries : set.Carries tidy words capacity list contents)
  | torn (other : List Word) (length : other.length = list.length)
    (shown : set.members.Shows other contents)
    (position : contents (set.positionCell value) = 0)
  | gone (carries : set.Carries False words capacity
      (swapRemove value list) contents)

section Removing

variable (carries : set.Carries tidy words capacity list contents)
  (separate : set.Separate words capacity) (within : index < list.length)
  (occupied : list ≠ [])

include carries separate within

/-- The removed value is the last one. -/
theorem Carries.moved_last (last : index = list.length - 1) :
    set.Moved tidy words capacity list index list[index]
      (list.getLast occupied)
      (contents.set (set.positionCell list[index]) 0) := by
  have known : list[index] ∈ words := carries.known _ (List.getElem_mem within)
  have sameValue : list.getLast occupied = list[index] := by
    rw [List.getLast_eq_getElem]
    simp only [last]
  constructor
  · rw [sameValue, List.set_getElem_self]
    exact carries.array.set_off (separate.apart _ known) _
  · intro other otherKnown
    rw [placeOf_swapRemove carries.nodup within occupied]
    by_cases same : other = list[index]
    · rw [if_pos same, same]
      exact Contents.set_same _ _ _
    · rw [if_neg same, sameValue, if_neg same, Contents.set_other
        (separate.positionCell_ne otherKnown known same)]
      exact carries.positions other otherKnown

/-- The last value is copied over the removed one and gets its position. -/
theorem Carries.moved_earlier (earlier : index ≠ list.length - 1) :
    set.Moved tidy words capacity list index list[index]
      (list.getLast occupied)
      (((contents.set (set.positionCell list[index]) 0).set
        (set.members.element index) (list.getLast occupied)).set
          (set.positionCell (list.getLast occupied))
            (Word.ofCount (index + 1))) := by
  have bounded := carries.array.bounded
  have known : list[index] ∈ words := carries.known _ (List.getElem_mem within)
  have knownLast : list.getLast occupied ∈ words :=
    carries.known _ (List.getLast_mem occupied)
  have differs : list.getLast occupied ≠ list[index] := by
    rw [List.getLast_eq_getElem]
    intro equality
    exact earlier (carries.nodup.getElem_inj_iff.mp equality).symm
  have cleared := carries.array.set_off (separate.apart _ known) 0
  have replaced := cleared.set_element separate.fits within
    (list.getLast occupied)
  constructor
  · exact replaced.set_off (separate.apart _ knownLast) _
  · intro other otherKnown
    rw [placeOf_swapRemove carries.nodup within occupied]
    by_cases moved : other = list.getLast occupied
    · subst other
      rw [if_neg differs, if_pos rfl, Contents.set_same]
    · rw [Contents.set_other
          (separate.positionCell_ne otherKnown knownLast moved),
        separate.set_array_position otherKnown
          (DynamicArray.element_mem_area (by omega))]
      by_cases removed : other = list[index]
      · rw [if_pos removed, removed]
        exact Contents.set_same _ _ _
      · rw [if_neg removed, if_neg moved, Contents.set_other
          (separate.positionCell_ne otherKnown known removed)]
        exact carries.positions other otherKnown

variable {between : Contents}
  (moved : set.Moved tidy words capacity list index list[index]
    (list.getLast occupied) between)

include moved

omit separate in
theorem Carries.torn_moved :
    set.Leaving tidy words capacity list list[index] between := by
  have known : list[index] ∈ words := carries.known _ (List.getElem_mem within)
  refine .torn _ List.length_set moved.array.shown ?_
  rw [moved.positions _ known, placeOf_of_not_mem]
  · rfl
  · exact fun member =>
      ((mem_swapRemove_iff carries.nodup).mp member).1 rfl

/-- Once the array is shortened, the value has been removed. -/
theorem Carries.removed {clean : Prop}
    (same : between.SameOff (set.members.area capacity) after)
    (shortened : set.members.Carries clean capacity
      (list.set index (list.getLast occupied)).dropLast after) :
    set.Carries clean words capacity (swapRemove list[index] list) after := by
  refine ⟨nodup_swapRemove _ carries.nodup, ?_, ?_, ?_⟩
  · intro other member
    exact carries.known other
      ((mem_swapRemove_iff carries.nodup).mp member).2
  · rwa [swapRemove_getElem carries.nodup within occupied]
  · intro other otherKnown
    rw [separate.position_same otherKnown same]
    exact moved.positions other otherKnown

end Removing

section Leaving

variable {causes : StoreError → Prop} {keeps : Contents → Prop}
  (carries : set.Carries tidy words capacity list contents)
  (separate : set.Separate words capacity)

include carries separate

section Member

variable (within : index < list.length)
  (kept : ∀ between, contents.SameOff (set.area words capacity) between →
    set.Leaving tidy words capacity list list[index] between →
      keeps between)

include kept

theorem Carries.safe_shorten (occupied : list ≠ []) {between : Contents}
    (same : contents.SameOff (set.area words capacity) between)
    (moved : set.Moved tidy words capacity list index list[index]
      (list.getLast occupied) between) :
    Layout.Safe causes keeps (do
        let _ ← set.members.removeLast
        return true) between
      (fun answer after => answer = true ∧
        contents.SameOff (set.area words capacity) after ∧
          set.Carries tidy words capacity (swapRemove list[index] list)
            after) := by
  have inArray := set.members_area_subset words capacity
  have bounded := moved.array.bounded
  have setOccupied : list.set index (list.getLast occupied) ≠ [] := by
    apply List.ne_nil_of_length_pos
    rw [List.length_set]
    omega
  have positive := List.length_pos_iff.mpr setOccupied
  have shortSame := (Contents.SameOff.refl _ between).set
    (set.members.lengthCell_mem_area capacity) (Word.ofCount
      ((list.set index (list.getLast occupied)).length - 1))
  have droppedSame := shortSame.set (DynamicArray.element_mem_area
    (show (list.set index (list.getLast occupied)).length - 1 < capacity
      by omega)) 0
  have shortened := carries.removed separate within occupied moved shortSame
    (moved.array.shortened separate.fits)
  have dropped := carries.removed separate within occupied moved droppedSame
    (moved.array.dropped separate.fits setOccupied)
  have keptMoved := kept between same
    (carries.torn_moved within occupied moved)
  have keptShortened := kept _ (same.trans (shortSame.mono inArray))
    (.gone shortened)
  have keptDropped := kept _ (same.trans (droppedSame.mono inArray))
    (.gone dropped.untidy)
  apply (moved.array.shown.safe_removeLast separate.fits bounded keptMoved
    setOccupied keptShortened keptDropped).bind
  rintro answer after keptAfter ⟨_, rfl⟩
  exact Layout.Safe.pure keptAfter
    ⟨rfl, same.trans (droppedSame.mono inArray), dropped⟩

theorem Carries.safe_remove_getElem :
    Layout.Safe causes keeps (set.remove list[index]) contents
      (fun answer after => answer = true ∧
        contents.SameOff (set.area words capacity) after ∧
          set.Carries tidy words capacity (swapRemove list[index] list)
            after) := by
  have occupied : list ≠ [] := List.ne_nil_of_length_pos (by omega)
  have bounded := carries.array.bounded
  have shown := carries.array.shown
  have known : list[index] ∈ words :=
    carries.known _ (List.getElem_mem within)
  have apart := separate.apart _ known
  have place : contents (set.positionCell list[index]) =
      Word.ofCount (index + 1) := by
    rw [carries.positions _ known, placeOf_getElem carries.nodup within]
  have cleared := shown.set_off bounded apart 0
  have clearedSame := (Contents.SameOff.refl (set.area words capacity)
    contents).set (positionCell_mem_area known) 0
  apply safe_remove_placed shown separate.fits bounded within apart place
    (kept contents (.refl _ _) (.there carries))
    (kept _ clearedSame
      (.torn list rfl cleared (Contents.set_same _ _ _)))
  · intro isLast
    exact carries.safe_shorten separate within kept occupied clearedSame
      (carries.moved_last separate within occupied isLast)
  · intro isEarlier
    rw [← List.getLast_eq_getElem occupied]
    have knownLast : list.getLast occupied ∈ words :=
      carries.known _ (List.getLast_mem occupied)
    have inArray : set.members.element index ∈ set.members.area capacity :=
      DynamicArray.element_mem_area (by omega)
    have replaced := cleared.set_element separate.fits bounded within
      (list.getLast occupied)
    have replacedSame := clearedSame.set
      (set.members_area_subset words capacity inArray)
      (list.getLast occupied)
    have stillZero := (separate.set_array_position known inArray
      (contents.set (set.positionCell list[index]) 0)
      (list.getLast occupied)).trans (Contents.set_same _ _ _)
    have moved := carries.moved_earlier separate within occupied isEarlier
    have movedSame := replacedSame.set (positionCell_mem_area knownLast)
      (Word.ofCount (index + 1))
    refine ⟨?_, ?_, ?_⟩
    · exact kept _ replacedSame
        (.torn _ List.length_set replaced stillZero)
    · exact kept _ movedSame (carries.torn_moved within occupied moved)
    · exact carries.safe_shorten separate within kept occupied movedSame
        moved

end Member

/-- Whichever calls fail, the value is there, has lost its position or is
gone. -/
theorem Carries.safe_remove (known : value ∈ words)
    (kept : ∀ between, contents.SameOff (set.area words capacity) between →
      set.Leaving tidy words capacity list value between → keeps between) :
    Layout.Safe causes keeps (set.remove value) contents
      (fun answer after => answer = decide (value ∈ list) ∧
        contents.SameOff (set.area words capacity) after ∧
          set.Carries tidy words capacity (swapRemove value list) after) := by
  by_cases member : value ∈ list
  · obtain ⟨index, within, rfl⟩ := List.mem_iff_getElem.mp member
    rw [decide_eq_true member]
    exact carries.safe_remove_getElem separate within kept
  · have start := kept contents (.refl _ _) (.there carries)
    have position := (carries.position_eq_zero_iff separate known).mpr member
    rw [decide_eq_false member, swapRemove_of_not_mem member]
    apply (set.reads_remove position start).mono
    rintro _ _ _ ⟨rfl, rfl⟩
    exact ⟨rfl, .refl _ _, carries⟩

theorem Carries.remove_achieves (known : value ∈ words) :
    (set.remove value).Achieves (set.area words capacity) contents
      (decide (value ∈ list))
      (set.Carries tidy words capacity (swapRemove value list)) :=
  (carries.safe_remove separate known fun _ _ _ => trivial).achieves

end Leaving

/-! ## Clearing -/

/-- The state of a clearing that has forgotten the places up to an index.  At
the index zero, words without a place have no position. -/
structure Forgotten (set : EnumerableSet) (tidy : Prop) (words : Set Word)
    (capacity : Nat) (list : List Word) (index : Nat)
    (contents : Contents) : Prop where
  array : set.members.Carries tidy capacity list contents
  positions : ∀ other ∈ words, placeOf other list ≤ index →
    contents (set.positionCell other) = 0

/-- A set that is being cleared: the first words of its array may be zero
already, or it is empty. -/
inductive Clearing (set : EnumerableSet) (tidy : Prop) (words : Set Word)
    (capacity : Nat) (list : List Word) (contents : Contents) : Prop where
  | blanking (count : Nat) (within : count ≤ list.length)
    (array : set.members.Carries tidy capacity
      (DynamicArray.blanked count list) contents)
    (absent : ∀ other ∈ words, other ∉ list →
      contents (set.positionCell other) = 0)
  | cleared (carries : set.Carries tidy words capacity [] contents)

theorem Carries.forgotten
    (carries : set.Carries tidy words capacity list contents) :
    set.Forgotten tidy words capacity list 0 contents := by
  refine ⟨carries.array, ?_⟩
  intro other otherKnown none
  rw [carries.positions other otherKnown, Nat.le_zero.mp none]
  rfl

theorem Forgotten.clearing
    (forgotten : set.Forgotten tidy words capacity list index contents) :
    set.Clearing tidy words capacity list contents := by
  apply Clearing.blanking 0 (Nat.zero_le _) forgotten.array
  intro other otherKnown absent
  apply forgotten.positions other otherKnown
  rw [placeOf_of_not_mem absent]
  exact Nat.zero_le index

theorem Forgotten.next (forgotten : set.Forgotten tidy words capacity list
      index contents)
    (separate : set.Separate words capacity)
    (known : ∀ value ∈ list, value ∈ words) (within : index < list.length) :
    set.Forgotten tidy words capacity list (index + 1)
      (contents.set (set.positionCell list[index]) 0) := by
  have knownHere : list[index] ∈ words := known _ (List.getElem_mem within)
  refine ⟨forgotten.array.set_off (separate.apart _ knownHere) _, ?_⟩
  intro other otherKnown placed
  by_cases here : other = list[index]
  · rw [here]
    exact Contents.set_same _ _ _
  · have place : placeOf other list ≠ index + 1 :=
      fun equality => here (eq_getElem_of_placeOf within equality)
    rw [Contents.set_other
      (separate.positionCell_ne otherKnown knownHere here)]
    exact forgotten.positions other otherKnown (by omega)

/-- Whichever calls fail, the clearing may be taken up again, unless words of
the array are gone. -/
theorem Forgotten.safe_clear {causes : StoreError → Prop}
    {keeps : Contents → Prop}
    (forgotten : set.Forgotten tidy words capacity list 0 contents)
    (separate : set.Separate words capacity)
    (known : ∀ value ∈ list, value ∈ words)
    (kept : ∀ between, contents.SameOff (set.area words capacity) between →
      set.Clearing tidy words capacity list between → keeps between) :
    Layout.Safe causes keeps set.clear contents
      (fun answer after => answer = () ∧
        contents.SameOff (set.area words capacity) after ∧
          set.Carries tidy words capacity [] after) := by
  have inArray := set.members_area_subset words capacity
  have bounded := forgotten.array.bounded
  have counts := separate.fits.counts
  have visited : Layout.Safe causes keeps
      (set.cursor.forEach fun member => set.positions.set member 0) contents
      (fun results after =>
        List.Forall₂ (fun _ _ => True) (list.drop 0) results ∧
          contents.SameOff (set.area words capacity) after ∧
          set.Forgotten tidy words capacity list list.length after) := by
    apply Cursor.safe_visit (fun _ _ => True) (fun index after =>
      contents.SameOff (set.area words capacity) after ∧
        set.Forgotten tidy words capacity list index after) separate.fits
          bounded
    · exact fun index after reached =>
        kept after reached.1 reached.2.clearing
    · exact fun index after reached => reached.2.array.shown
    · rintro index within between ⟨same, reached⟩
      have knownHere := known _ (List.getElem_mem within)
      have nextSame := same.set (positionCell_mem_area knownHere) 0
      have next := reached.next separate known within
      apply (Layout.safe_write (set.positionCell list[index]) 0
        (kept between same reached.clearing)
        (kept _ nextSame next.clearing)).mono
      rintro answer after _ ⟨_, rfl⟩
      exact ⟨trivial, nextSame, next⟩
    · omega
    · exact Nat.zero_le _
    · exact ⟨.refl _ _, forgotten⟩
  unfold clear
  apply visited.bind
  rintro results between _ ⟨_, same, reached⟩
  have unplaced : ∀ after,
      between.SameOff (set.members.area capacity) after →
      ∀ other ∈ words, after (set.positionCell other) = 0 := by
    intro after clearSame other otherKnown
    rw [separate.position_same otherKnown clearSame]
    exact reached.positions other otherKnown placeOf_le_length
  have emptied : ∀ after,
      between.SameOff (set.members.area capacity) after →
      set.members.Carries tidy capacity [] after →
        set.Carries tidy words capacity [] after :=
    fun after clearSame cleared => ⟨List.nodup_nil,
      fun value member => absurd member List.not_mem_nil, cleared,
      unplaced after clearSame⟩
  apply (reached.array.safe_clear separate.fits
    (fun count within after clearSame erased =>
      kept after (same.trans (clearSame.mono inArray))
        (.blanking count within erased fun other otherKnown _ =>
          unplaced after clearSame other otherKnown))
    (fun after clearSame cleared =>
      kept after (same.trans (clearSame.mono inArray))
        (.cleared (emptied after clearSame cleared)))).mono
  rintro answer after _ ⟨rfl, clearSame, cleared⟩
  exact ⟨rfl, same.trans (clearSame.mono inArray),
    emptied after clearSame cleared⟩

theorem Carries.clear_achieves
    (carries : set.Carries tidy words capacity list contents)
    (separate : set.Separate words capacity) :
    set.clear.Achieves (set.area words capacity) contents ()
      (set.Carries tidy words capacity []) :=
  (carries.forgotten.safe_clear separate carries.known
    fun _ _ _ => trivial).achieves

end EnumerableSet

end SlotStorage
