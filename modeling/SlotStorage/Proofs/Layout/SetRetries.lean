import SlotStorage.Proofs.Layout.SetCalls

/-!
# Additions that are tried again

Adding a word to a set writes its element, the length and its position, and a
store call may fail before any of these writes.  Another attempt goes by the
position alone.  If the length was not written yet, it starts over and the
word enters once.  Once the length is written, the word is listed without a
position, and another attempt lists it a second time.
-/

namespace SlotStorage

namespace EnumerableSet

open MemberList

/-- The array counts the value behind the list, but the value has no position
yet. -/
structure Unplaced (set : EnumerableSet) (words : Set Word) (capacity : Nat)
    (list : List Word) (value : Word) (contents : Contents) : Prop where
  array : set.members.Carries False capacity (list ++ [value]) contents
  positions : ∀ other ∈ words,
    contents (set.positionCell other) = Word.ofCount (placeOf other list)

/-- A set that a value is being added to: it stands for the list without the
value, or the value has no position yet. -/
inductive Entering (set : EnumerableSet) (words : Set Word) (capacity : Nat)
    (list : List Word) (value : Word) (contents : Contents) : Prop where
  | outside (carries : set.Carries False words capacity list contents)
  | unplaced (unplaced : set.Unplaced words capacity list value contents)

/-- Adding the value lists it behind the members, and removing it afterwards
brings the members back. -/
def Admits (set : EnumerableSet) (value : Word) (members : List Word)
    (contents : Contents) : Prop :=
  ∃ added, (set.add value).Runs contents true added ∧
    set.toList.Runs added (members ++ [value]) added ∧
    set.size.Runs added (members.length + 1) added ∧
    ∃ removed, (set.remove value).Runs added true removed ∧
      set.toList.Runs removed members removed

variable {set : EnumerableSet} {tidy : Prop} {words : Set Word}
  {capacity : Nat} {list : List Word} {contents after : Contents}
  {value : Word} {causes : StoreError → Prop}

theorem Separate.mono (separate : set.Separate words capacity) {smaller : Nat}
    (within : smaller ≤ capacity) : set.Separate words smaller := by
  refine ⟨separate.fits.mono within, separate.distinct, ?_⟩
  intro value known inside
  exact separate.apart value known
    (Cell.row_subset (Nat.succ_le_succ within) inside)

theorem area_mono {smaller : Nat} (within : smaller ≤ capacity) :
    set.area words smaller ⊆ set.area words capacity :=
  Set.union_subset_union_left _ (Cell.row_subset (Nat.succ_le_succ within))

/-- Beyond a smaller capacity words may lie after the array. -/
theorem Carries.widen {smaller : Nat}
    (carries : set.Carries tidy words smaller list contents)
    (within : smaller ≤ capacity) :
    set.Carries False words capacity list contents :=
  ⟨carries.nodup, carries.known,
    ⟨carries.array.bounded.trans within, carries.array.shown, False.elim⟩,
    carries.positions⟩

/-! ## Where an addition stops -/

section Stops

variable (carries : set.Carries tidy words capacity list contents)
  (separate : set.Separate words capacity) (known : value ∈ words)
  (room : list.length < capacity)

include carries separate room

/-- An element that is not counted yet lies after the array. -/
theorem Carries.placed :
    set.Carries False words capacity list
      (contents.set (set.members.element list.length) value) := by
  refine ⟨carries.nodup, carries.known, ⟨carries.array.bounded, ?_,
    False.elim⟩, ?_⟩
  · exact carries.array.shown.set_after separate.fits (Nat.le_refl _) room
      value
  · intro other otherKnown
    rw [separate.set_array_position otherKnown
      (DynamicArray.element_mem_area room)]
    exact carries.positions other otherKnown

theorem Carries.unplaced :
    set.Unplaced words capacity list value
      ((contents.set (set.members.element list.length) value).set
        set.members.lengthCell (Word.ofCount (list.length + 1))) := by
  refine ⟨(carries.array.appended separate.fits room value).untidy, ?_⟩
  intro other otherKnown
  rw [separate.set_array_position otherKnown
      (set.members.lengthCell_mem_area capacity),
    separate.set_array_position otherKnown
      (DynamicArray.element_mem_area room)]
  exact carries.positions other otherKnown

include known

theorem Carries.stops_add (absent : value ∉ list) :
    Layout.Stops causes (set.Entering words capacity list value)
      (set.add value) contents (fun _ _ => True) := by
  have outside : set.Entering words capacity list value contents :=
    .outside carries.untidy
  have grown : set.Unplaced words capacity list value _ :=
    carries.unplaced separate room
  have contained : Layout.Reads causes
      (set.Entering words capacity list value) (set.contains value) contents
      (decide (value ∈ list)) :=
    carries.reads_contains separate known outside
  rw [decide_eq_false absent] at contained
  unfold add
  apply contained.stops_bind
  rw [if_neg Bool.false_ne_true]
  apply (carries.array.shown.safe_append separate.fits outside room
    (.outside (carries.placed separate room))
    (.unplaced grown)).stops.bind
  rintro _ between ⟨_, rfl⟩
  apply (grown.array.shown.reads_size separate.fits grown.array.bounded
    (.unplaced grown)).stops_bind
  apply (Layout.stops_write _ _ (.unplaced grown)).bind
  exact fun _ _ _ => Layout.Stops.pure trivial

end Stops

/-! ## The next attempt -/

/-- A set without the value takes it in, once. -/
theorem Carries.admits
    (carries : set.Carries tidy words capacity list contents)
    (separate : set.Separate words capacity) (known : value ∈ words)
    (absent : value ∉ list) (room : list.length < capacity) :
    set.Admits value list contents := by
  obtain ⟨added, adds, _, entered⟩ :=
    carries.add_achieves separate known fun _ => room
  rw [decide_eq_true absent] at adds
  rw [MemberList.insert, if_neg absent] at entered
  have sized := entered.runs_size separate
  rw [List.length_append] at sized
  obtain ⟨removed, removes, _, left⟩ :=
    entered.remove_achieves separate known
  rw [decide_eq_true (List.mem_append_right list (List.mem_singleton_self _))]
    at removes
  rw [swapRemove_concat absent] at left
  exact ⟨added, adds, entered.runs_toList separate, sized, removed, removes,
    left.runs_toList separate⟩

section Unplaced

variable (unplaced : set.Unplaced words capacity list value contents)
  (separate : set.Separate words capacity) (known : value ∈ words)
  (absent : value ∉ list)

include unplaced separate

theorem Unplaced.runs_toList :
    set.toList.Runs contents (list ++ [value]) contents :=
  (unplaced.array.shown.reads_toList separate.fits unplaced.array.bounded
    trivial).runs

include known absent

omit separate in
theorem Unplaced.position_eq_zero :
    contents (set.positionCell value) = 0 := by
  rw [unplaced.positions value known, placeOf_of_not_mem absent]
  rfl

omit separate in
theorem Unplaced.runs_contains :
    (set.contains value).Runs contents false contents := by
  have answered : (set.contains value).Runs contents
      (decide (contents (set.positionCell value) ≠ 0)) contents :=
    (Layout.runs_read (set.positionCell value) contents).bind (.pure _ _)
  rwa [unplaced.position_eq_zero known absent] at answered

/-- A value that is listed without a position is listed once more. -/
theorem Unplaced.add_runs (room : list.length + 1 < capacity) :
    ∃ after, (set.add value).Runs contents true after ∧
      set.members.Carries False capacity (list ++ [value] ++ [value]) after ∧
      after (set.positionCell value) = Word.ofCount (list.length + 2) := by
  have roomHere : (list ++ [value]).length < capacity := by simpa using room
  obtain ⟨between, appends, _, grown⟩ :=
    unplaced.array.append_achieves separate.fits roomHere value
  have sized := (grown.shown.reads_size separate.fits grown.bounded
    trivial).runs
  have placed := grown.set_off (separate.apart value known)
    (Word.ofCount (list.length + 2))
  refine ⟨_, ?_, placed, Contents.set_same _ _ _⟩
  unfold add
  apply (unplaced.runs_contains known absent).bind
  rw [if_neg Bool.false_ne_true]
  apply appends.bind
  apply sized.bind
  rw [List.length_append, List.length_append]
  exact (Layout.runs_write (set.positionCell value) _ between).bind
    (.pure _ _)

end Unplaced

/-- A value whose position leads to the end of the array leaves it there. -/
theorem remove_last_runs
    (array : set.members.Carries False capacity (list ++ [value]) contents)
    (fits : set.members.Fits capacity)
    (apart : set.positionCell value ∉ set.members.area capacity)
    (place : contents (set.positionCell value) =
      Word.ofCount (list.length + 1)) :
    ∃ after, (set.remove value).Runs contents true after ∧
      set.members.Carries False capacity list after := by
  have length : (list ++ [value]).length = list.length + 1 := by simp
  have occupied : list ++ [value] ≠ [] := by simp
  have within : list.length < (list ++ [value]).length := by omega
  have valueThere : (list ++ [value])[list.length] = value := by simp
  have cleared := array.set_off apart 0
  have shortened : Layout.Safe (fun _ => False) (fun _ => True) (do
        let _ ← set.members.removeLast
        return true) (contents.set (set.positionCell value) 0)
      (fun answer after => answer = true ∧
        set.members.Carries False capacity list after) := by
    have dropped := cleared.dropped fits occupied
    rw [List.dropLast_concat] at dropped
    apply (cleared.shown.safe_removeLast fits cleared.bounded trivial occupied
      trivial trivial).bind
    rintro _ after _ ⟨_, rfl⟩
    exact Layout.Safe.pure trivial ⟨rfl, dropped⟩
  have removal : Layout.Safe (fun _ => False) (fun _ => True)
      (set.remove (list ++ [value])[list.length]) contents
      (fun answer after => answer = true ∧
        set.members.Carries False capacity list after) :=
    safe_remove_placed array.shown fits array.bounded within
      (by rwa [valueThere]) (by rwa [valueThere]) trivial trivial
      (fun _ => by rwa [valueThere]) (fun earlier => by omega)
  rw [valueThere] at removal
  obtain ⟨answer, after, runs, rfl, left⟩ := removal.runs
  exact ⟨after, runs, left⟩

/-- A value that is listed without a position is taken in a second time, and
only the second one leaves again. -/
theorem Unplaced.admits
    (unplaced : set.Unplaced words capacity list value contents)
    (separate : set.Separate words capacity) (known : value ∈ words)
    (absent : value ∉ list) (room : list.length + 1 < capacity) :
    set.Admits value (list ++ [value]) contents := by
  have reads {members : List Word} {contents : Contents}
      (array : set.members.Carries False capacity members contents) :
      set.toList.Runs contents members contents :=
    (array.shown.reads_toList separate.fits array.bounded trivial).runs
  have length : (list ++ [value]).length = list.length + 1 := by simp
  obtain ⟨added, adds, doubled, place⟩ :=
    unplaced.add_runs separate known absent room
  have sized : set.size.Runs added (list ++ [value] ++ [value]).length added :=
    (doubled.shown.reads_size separate.fits doubled.bounded trivial).runs
  rw [List.length_append] at sized
  obtain ⟨removed, removes, left⟩ := remove_last_runs doubled separate.fits
    (separate.apart value known) (by rw [place, length])
  exact ⟨added, adds, reads doubled, sized, removed, removes, reads left⟩

/-- Whichever store call of an addition fails, after any run of calls without
failures: if the set still lists the old members, another attempt takes the
value in once, and removing it brings the old members back.  Otherwise the set
lists the value without containing it, and another attempt lists it a second
time. -/
theorem failed_add_retried (hasher : Hasher) (space : Namespace)
    (setKey : Slot) (words : Finset Word) (capacity : Nat) (calls : List Call)
    (value : Word) (before : Contents)
    (answers : List (Except LayoutError Answer)) (plan : FaultPlan)
    (start : Counted Contents) (broken : Contents)
    (separate : (ofKey hasher space setKey).Separate words capacity)
    (enough : words.card ≤ capacity)
    (within : ∀ call ∈ calls, call.Within words) (known : value ∈ words)
    (empty : ∀ cell ∈ (ofKey hasher space setKey).area words capacity,
      before cell = 0)
    (reached : (Action.attempts (Call.perform (ofKey hasher space setKey))
      calls).run Contents.backend before = (answers, start.state))
    (absent : value ∉ Call.listAfter [] calls)
    (breaks : ((ofKey hasher space setKey).add value).Breaks plan start
      broken) :
    let set := ofKey hasher space setKey
    let list := Call.listAfter [] calls
    set.toList.Runs broken list broken ∧ set.Admits value list broken ∨
      set.toList.Runs broken (list ++ [value]) broken ∧
        (set.contains value).Runs broken false broken ∧
        (list.length + 1 < capacity →
          set.Admits value (list ++ [value]) broken) := by
  intro set list
  have narrow : set.Separate words words.card := separate.mono enough
  have start : set.Carries True words words.card [] before :=
    .of_empty fun cell inside => empty cell (area_mono enough inside)
  obtain ⟨state, runs, _, carries⟩ := start.run_attempts narrow within
  rw [reached] at runs
  obtain rfl : _ = state := congrArg Prod.snd runs
  have room : list.length < capacity := Nat.lt_of_lt_of_le
    (MemberList.length_lt_card carries.nodup carries.known known absent) enough
  have wide := carries.widen enough
  have stopped : set.Entering words capacity list value broken :=
    (wide.stops_add separate known room absent).stopped_of_breaks breaks
  cases stopped with
  | outside still =>
      exact .inl ⟨still.runs_toList separate,
        still.admits separate known absent room⟩
  | unplaced unplaced =>
      exact .inr ⟨unplaced.runs_toList separate,
        unplaced.runs_contains known absent,
        unplaced.admits separate known absent⟩

/-- Under Keccak-256 the length is not written after the first element, and
another attempt adds the member. -/
theorem failed_add_retried_keccak :
    let set := ofKey HashAlgorithm.keccak256.hasher .storageProcessor ⟨5⟩
    let plan := FaultPlan.writesAfter 1 (Access.failure "gone")
    let broken := Contents.empty.set (set.members.element 0) 7
    set.Separate ({0, 7} : Finset Word) 2 ∧
    (set.add 7).Breaks plan ⟨Contents.empty, 0, 0⟩ broken ∧
    set.toList.Runs broken [] broken ∧ set.Admits 7 [] broken := by
  intro set plan broken
  have breaks : (set.add 7).Breaks plan ⟨Contents.empty, 0, 0⟩ broken :=
    ⟨_, _, rfl, rfl⟩
  have start : set.Carries True ({0, 7} : Finset Word) 2 [] Contents.empty :=
    .of_empty fun _ _ => rfl
  have listed : set.toList.Runs broken [] broken :=
    (start.placed keccak_separate (by decide)).runs_toList keccak_separate
  refine ⟨keccak_separate, breaks, ?_⟩
  rcases failed_add_retried HashAlgorithm.keccak256.hasher .storageProcessor
    ⟨5⟩ {0, 7} 2 [] 7 Contents.empty [] plan ⟨Contents.empty, 0, 0⟩ broken
    keccak_separate (by decide) (by simp) (by simp) (fun _ _ => rfl) rfl
    List.not_mem_nil breaks with once | ⟨doubled, _⟩
  · exact once
  · exact absurd (listed.result_eq doubled) (by decide)

/-- Under Keccak-256 the position of the first member is not written.  The
next attempt reports that the word is new, but lists it twice. -/
theorem failed_add_doubles_keccak :
    let set := ofKey HashAlgorithm.keccak256.hasher .storageProcessor ⟨5⟩
    let plan := FaultPlan.writesAfter 2 (Access.failure "gone")
    let broken := (Contents.empty.set (set.members.element 0) 7).set
      set.members.lengthCell (Word.ofCount 1)
    set.Separate ({0, 7} : Finset Word) 2 ∧
    (set.add 7).Breaks plan ⟨Contents.empty, 0, 0⟩ broken ∧
    set.Admits 7 [7] broken ∧ ¬ set.Admits 7 [] broken := by
  intro set plan broken
  have breaks : (set.add 7).Breaks plan ⟨Contents.empty, 0, 0⟩ broken :=
    ⟨_, _, rfl, rfl⟩
  have start : set.Carries True ({0, 7} : Finset Word) 2 [] Contents.empty :=
    .of_empty fun _ _ => rfl
  have doubled : set.Admits 7 [7] broken :=
    (start.unplaced keccak_separate (by decide)).admits keccak_separate
      (by simp) List.not_mem_nil (by decide)
  refine ⟨keccak_separate, breaks, doubled, ?_⟩
  rintro ⟨once, addsOnce, listsOnce, _⟩
  obtain ⟨twice, addsTwice, listsTwice, _⟩ := doubled
  obtain rfl : once = twice := congrArg Prod.snd (addsOnce.symm.trans addsTwice)
  exact absurd (listsOnce.result_eq listsTwice) (by decide)

end EnumerableSet

end SlotStorage
