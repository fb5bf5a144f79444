import SlotStorage.Proofs.Layout.SetCalls

/-!
# Enumerable sets on a store that may fail

A failure in the middle of an operation leaves words in the array that have no
position, and may leave a word there twice.  What survives every single write
is weaker than holding a list: a position that is not zero leads to its word.
It is enough for all operations to work, and for clearing to bring the set
back to order.
-/

namespace SlotStorage

namespace EnumerableSet

/-- The array shows a list of known words, and every position that is not
zero leads to its word in the list. -/
structure Leads (set : EnumerableSet) (words : Set Word) (limit : Nat)
    (list : List Word) (contents : Contents) : Prop where
  bounded : list.length ≤ limit
  known : ∀ value ∈ list, value ∈ words
  shown : set.members.Shows list contents
  points : ∀ value ∈ words, contents (set.positionCell value) = 0 ∨
    ∃ index, list[index]? = some value ∧
      contents (set.positionCell value) = Word.ofCount (index + 1)

/-- Positions lead to their words, whatever the array shows. -/
def Sound (set : EnumerableSet) (words : Set Word) (limit : Nat)
    (contents : Contents) : Prop :=
  ∃ list, set.Leads words limit list contents

variable {set : EnumerableSet} {words : Set Word} {capacity limit : Nat}
  {list : List Word} {contents : Contents} {value : Word} {index : Nat}

theorem Leads.sound (leads : set.Leads words limit list contents) :
    set.Sound words limit contents :=
  ⟨list, leads⟩

theorem Leads.mono (leads : set.Leads words limit list contents)
    {larger : Nat} (within : limit ≤ larger) :
    set.Leads words larger list contents :=
  ⟨leads.bounded.trans within, leads.known, leads.shown, leads.points⟩

/-- No position leads to the index. -/
def Unpointed (set : EnumerableSet) (words : Set Word) (index : Nat)
    (contents : Contents) : Prop :=
  ∀ value ∈ words,
    contents (set.positionCell value) ≠ Word.ofCount (index + 1)

/-! ## Single writes -/

section Writes

variable (leads : set.Leads words limit list contents)
  (separate : set.Separate words capacity) (within : limit ≤ capacity)

include leads separate within

/-- A position names the index it leads to. -/
theorem Leads.index_eq {other : Nat} (found : list[index]? = some value)
    (same : Word.ofCount (index + 1) = Word.ofCount (other + 1))
    (otherWithin : other < list.length) : index = other := by
  have bounded := leads.bounded
  have counts := separate.fits.counts
  obtain ⟨indexWithin, _⟩ := List.getElem?_eq_some_iff.mp found
  have places := Word.ofCount_injective (by omega) (by omega) same
  omega

/-- A position may become zero or lead to its word. -/
theorem Leads.set_position (known : value ∈ words) {place : Word}
    (leading : place = 0 ∨ ∃ index, list[index]? = some value ∧
      place = Word.ofCount (index + 1)) :
    set.Leads words limit list
      (contents.set (set.positionCell value) place) := by
  refine ⟨leads.bounded, leads.known, ?_, ?_⟩
  · exact leads.shown.set_off (leads.bounded.trans within)
      (separate.apart value known) place
  · intro other otherKnown
    by_cases same : other = value
    · subst other
      rw [Contents.set_same]
      exact leading
    · rw [Contents.set_other
        (separate.positionCell_ne otherKnown known same)]
      exact leads.points other otherKnown

omit within in
/-- The array changes without taking a word from under its position. -/
theorem Leads.set_array {cell : Cell} {place : Word} {later : List Word}
    (inside : cell ∈ set.members.area capacity)
    (bounded : later.length ≤ limit)
    (known : ∀ value ∈ later, value ∈ words)
    (shown : set.members.Shows later (contents.set cell place))
    (still : ∀ index value, list[index]? = some value →
      contents (set.positionCell value) = Word.ofCount (index + 1) →
      value ∈ words → later[index]? = some value) :
    set.Leads words limit later (contents.set cell place) := by
  refine ⟨bounded, known, shown, ?_⟩
  intro value valueKnown
  rw [separate.set_array_position valueKnown inside]
  rcases leads.points value valueKnown with zero | ⟨index, found, place⟩
  · exact .inl zero
  · exact .inr ⟨index, still index value found place valueKnown, place⟩

omit within in
/-- A write after the last element is not seen. -/
theorem Leads.set_after (later : list.length ≤ index)
    (indexWithin : index < capacity) (value : Word) :
    set.Leads words limit list
      (contents.set (set.members.element index) value) :=
  leads.set_array separate
    (DynamicArray.element_mem_area indexWithin) leads.bounded leads.known
    (leads.shown.set_after separate.fits later indexWithin value)
    (fun _ _ found _ _ => found)

/-- The word that was written after the last element enters the array. -/
theorem Leads.grow (room : list.length < limit) (known : value ∈ words)
    (placed : contents (set.members.element list.length) = value) :
    set.Leads words limit (list ++ [value])
      (contents.set set.members.lengthCell
        (Word.ofCount (list.length + 1))) := by
  apply leads.set_array separate
    (set.members.lengthCell_mem_area capacity)
  · rw [List.length_append]
    exact room
  · intro other member
    rcases List.mem_append.mp member with earlier | last
    · exact leads.known other earlier
    · exact List.mem_singleton.mp last ▸ known
  · exact leads.shown.grow separate.fits (by omega) placed
  · intro index other found _ _
    obtain ⟨indexWithin, _⟩ := List.getElem?_eq_some_iff.mp found
    rw [List.getElem?_append_left indexWithin]
    exact found

/-- Another word takes a place that no position leads to. -/
theorem Leads.replace (unpointed : set.Unpointed words index contents)
    (indexWithin : index < list.length) (known : value ∈ words) :
    set.Leads words limit (list.set index value)
      (contents.set (set.members.element index) value) := by
  have bounded := leads.bounded
  apply leads.set_array separate
    (DynamicArray.element_mem_area (by omega))
  · simpa using bounded
  · intro other member
    rcases List.mem_or_eq_of_mem_set member with earlier | rfl
    · exact leads.known other earlier
    · exact known
  · exact leads.shown.set_element separate.fits (by omega) indexWithin value
  · intro other word found place wordKnown
    rw [List.getElem?_set_ne]
    · exact found
    · rintro rfl
      exact unpointed word wordKnown place

/-- The last word leaves when no position leads to it. -/
theorem Leads.shrink
    (unpointed : set.Unpointed words (list.length - 1) contents) :
    set.Leads words limit list.dropLast
      (contents.set set.members.lengthCell
        (Word.ofCount (list.length - 1))) := by
  have bounded := leads.bounded
  apply leads.set_array separate
    (set.members.lengthCell_mem_area capacity)
  · rw [List.length_dropLast]
    omega
  · exact fun other member =>
      leads.known other (List.mem_of_mem_dropLast member)
  · exact leads.shown.shrink separate.fits (by omega)
  · intro index other found place otherKnown
    have notLast : index ≠ list.length - 1 := by
      rintro rfl
      exact unpointed other otherKnown place
    obtain ⟨indexWithin, _⟩ := List.getElem?_eq_some_iff.mp found
    rw [List.getElem?_dropLast, if_pos (by omega)]
    exact found

/-- Only the word at an index can have a position that leads there. -/
theorem Leads.unpointed (indexWithin : index < list.length)
    (elsewhere : contents (set.positionCell list[index]) ≠
      Word.ofCount (index + 1)) :
    set.Unpointed words index contents := by
  intro value known place
  have bounded := leads.bounded
  have counts := separate.fits.counts
  rcases leads.points value known with zero | ⟨other, found, otherPlace⟩
  · rw [zero] at place
    exact Word.ofCount_succ_ne_zero (by omega) place.symm
  · have here := leads.index_eq separate within found
      (otherPlace.symm.trans place) indexWithin
    subst other
    rw [List.getElem?_eq_getElem indexWithin] at found
    obtain rfl := Option.some.inj found
    exact elsewhere place

end Writes

/-! ## Operations -/

section Operations

variable {causes : StoreError → Prop}
  (leads : set.Leads words limit list contents)
  (separate : set.Separate words capacity)

include leads separate

omit separate in
theorem Leads.reads_contains (value : Word) :
    Layout.Reads causes (set.Sound words limit) (set.contains value) contents
      (decide (contents (set.positionCell value) ≠ 0)) := by
  have sound := leads.sound
  exact (Layout.reads_read (set.positionCell value) sound).bind
    (Layout.Reads.pure sound)

/-- At every write of an addition positions lead to their words; the array
has one word more at most. -/
theorem Leads.safe_add (within : limit + 1 ≤ capacity)
    (known : value ∈ words) :
    Layout.Safe causes (set.Sound words (limit + 1)) (set.add value) contents
      (fun _ _ => True) := by
  have bounded := leads.bounded
  have grownLimit := leads.mono (Nat.le_succ limit)
  have placed := grownLimit.set_after separate (Nat.le_refl _)
    (by omega) value
  have grown := placed.grow separate within (by omega) known
    (Contents.set_same _ _ _)
  have length : (list ++ [value]).length = list.length + 1 := by simp
  unfold add
  apply (grownLimit.reads_contains value).bind
  by_cases absent : contents (set.positionCell value) ≠ 0
  · rw [if_pos (decide_eq_true absent)]
    exact Layout.Safe.pure grownLimit.sound trivial
  · rw [if_neg (by simpa using absent)]
    apply (leads.shown.safe_append separate.fits grownLimit.sound (by omega)
      placed.sound grown.sound).bind
    rintro answer between _ ⟨_, rfl⟩
    apply (grown.shown.reads_size separate.fits (by omega) grown.sound).bind
    have pointed := grown.set_position separate within known
      (.inr ⟨list.length, List.getElem?_concat_length, rfl⟩)
    rw [length]
    apply (Layout.safe_write (set.positionCell value) _ grown.sound
      pointed.sound).bind
    intro _ after keptAfter _
    exact Layout.Safe.pure keptAfter trivial

/-- A removal that is about to drop a last word without a position. -/
theorem Leads.safe_shorten (within : limit ≤ capacity)
    (occupied : list ≠ [])
    (unpointed : set.Unpointed words (list.length - 1) contents) :
    Layout.Safe causes (set.Sound words limit) (do
        let _ ← set.members.removeLast
        return true) contents (fun _ _ => True) := by
  have bounded := leads.bounded
  have positive : 0 < list.length := List.length_pos_iff.mpr occupied
  have short := leads.shrink separate within unpointed
  have erased := short.set_after separate
    (by rw [List.length_dropLast]) (show list.length - 1 < capacity by omega) 0
  apply (leads.shown.safe_removeLast separate.fits (by omega) leads.sound
    occupied short.sound erased.sound).bind
  intro _ after keptAfter _
  exact Layout.Safe.pure keptAfter trivial

/-- The word at an index that its position leads to is removed.  Once its own
position is zero, no position leads to the index; once the last word has its
new position, no position leads to the end. -/
theorem Leads.safe_remove_getElem (within : limit ≤ capacity)
    (indexWithin : index < list.length)
    (place : contents (set.positionCell list[index]) =
      Word.ofCount (index + 1)) :
    Layout.Safe causes (set.Sound words limit) (set.remove list[index])
      contents (fun _ _ => True) := by
  have bounded := leads.bounded
  have counts := separate.fits.counts
  have room : list.length ≤ capacity := by omega
  have nonzero : Word.ofCount (index + 1) ≠ 0 :=
    Word.ofCount_succ_ne_zero (by omega)
  have known : list[index] ∈ words :=
    leads.known _ (List.getElem_mem indexWithin)
  have knownLast : list[list.length - 1] ∈ words :=
    leads.known _ (List.getElem_mem _)
  have forgotten := leads.set_position separate within known (.inl rfl)
  have unpointed := forgotten.unpointed separate within indexWithin (by
    rw [Contents.set_same]
    exact nonzero.symm)
  apply safe_remove_placed leads.shown separate.fits room indexWithin
    (separate.apart _ known) place leads.sound forgotten.sound
  · intro isLast
    apply forgotten.safe_shorten separate within
      (List.ne_nil_of_length_pos (by omega))
    rwa [← isLast]
  · intro isEarlier
    have replaced := forgotten.replace separate within unpointed indexWithin
      knownLast
    have pointed := replaced.set_position separate within knownLast
      (.inr ⟨index, by rw [List.getElem?_set_self indexWithin], rfl⟩)
    have length : (list.set index list[list.length - 1]).length =
        list.length := List.length_set
    refine ⟨replaced.sound, pointed.sound, ?_⟩
    apply pointed.safe_shorten separate within
      (List.ne_nil_of_length_pos (by omega))
    rw [length]
    apply pointed.unpointed separate within (by omega)
    rw [List.getElem_set_ne (by omega), Contents.set_same]
    intro same
    have places := Word.ofCount_injective (by omega) (by omega) same
    omega

theorem Leads.safe_remove (within : limit ≤ capacity)
    (known : value ∈ words) :
    Layout.Safe causes (set.Sound words limit) (set.remove value) contents
      (fun _ _ => True) := by
  rcases leads.points value known with zero | ⟨index, found, place⟩
  · exact (set.reads_remove zero leads.sound).mono fun _ _ _ _ => trivial
  · obtain ⟨indexWithin, rfl⟩ := List.getElem?_eq_some_iff.mp found
    exact leads.safe_remove_getElem separate within indexWithin place

/-- The positions of the elements go first, which leaves no position. -/
theorem Leads.safe_forget (within : limit ≤ capacity) :
    Layout.Safe causes (set.Sound words limit)
      (set.cursor.forEach fun member => set.positions.set member 0) contents
      (fun _ after => set.Leads words limit list after ∧
        ∀ value ∈ words, after (set.positionCell value) = 0) := by
  have bounded := leads.bounded
  have counts := separate.fits.counts
  have visited : Layout.Safe causes (set.Sound words limit)
      (set.cursor.forEach fun member => set.positions.set member 0) contents
      (fun results after =>
        List.Forall₂ (fun _ _ => True) (list.drop 0) results ∧
          set.Leads words limit list after ∧
          ∀ value ∈ list.take list.length,
            after (set.positionCell value) = 0) := by
    apply Cursor.safe_visit (fun _ _ => True) (fun index after =>
      set.Leads words limit list after ∧
        ∀ value ∈ list.take index, after (set.positionCell value) = 0)
      separate.fits (by omega)
    · exact fun index after reached => reached.1.sound
    · exact fun index after reached => reached.1.shown
    · rintro index indexWithin between ⟨reached, zeros⟩
      have known : list[index] ∈ words :=
        leads.known _ (List.getElem_mem indexWithin)
      have next := reached.set_position separate within known (.inl rfl)
      apply (Layout.safe_write (set.positionCell list[index]) 0 reached.sound
        next.sound).mono
      rintro answer after _ ⟨_, rfl⟩
      refine ⟨trivial, next, ?_⟩
      intro value member
      by_cases here : value = list[index]
      · rw [here]
        exact Contents.set_same _ _ _
      · rw [List.take_succ_eq_append_getElem indexWithin,
          List.mem_append, List.mem_singleton] at member
        have earlier : value ∈ list.take index := member.resolve_right here
        rw [Contents.set_other (separate.positionCell_ne
          (leads.known _ (List.mem_of_mem_take earlier)) known here)]
        exact zeros value earlier
    · omega
    · exact Nat.zero_le _
    · exact ⟨leads, fun value member => by simp at member⟩
  apply visited.mono
  rintro results after _ ⟨_, reached, zeros⟩
  refine ⟨reached, ?_⟩
  intro value known
  rcases reached.points value known with zero | ⟨index, found, _⟩
  · exact zero
  · apply zeros
    rw [List.take_length]
    exact List.mem_of_getElem? found

/-- Without positions the array may be emptied from its start. -/
theorem Leads.safe_clearMembers (within : limit ≤ capacity)
    (zeroKnown : 0 ∈ words)
    (zeros : ∀ value ∈ words, contents (set.positionCell value) = 0) :
    Layout.Safe causes (set.Sound words limit) set.members.clear contents
      (fun _ after => after set.members.lengthCell = 0 ∧
        ∀ value ∈ words, after (set.positionCell value) = 0) := by
  have bounded := leads.bounded
  have counts := separate.fits.counts
  have erasing : Layout.Safe causes (set.Sound words limit)
      (set.members.eraseFrom 0 list.length) contents
      (fun _ after => ∃ later, set.Leads words limit later after ∧
        later.length = list.length ∧
        ∀ value ∈ words, after (set.positionCell value) = 0) := by
    apply DynamicArray.safe_eraseFrom (fun _ after => ∃ later,
      set.Leads words limit later after ∧ later.length = list.length ∧
        ∀ value ∈ words, after (set.positionCell value) = 0)
      (separate.fits.mono (bounded.trans within))
    · exact fun index after ⟨later, reached, _⟩ => reached.sound
    · rintro index between indexWithin ⟨later, reached, length, none⟩
      have unpointed : set.Unpointed words index between := by
        intro value known
        rw [none value known]
        exact (Word.ofCount_succ_ne_zero (by omega)).symm
      refine ⟨later.set index 0, reached.replace separate within unpointed
        (by omega) zeroKnown, by rw [List.length_set, length], ?_⟩
      intro value known
      rw [separate.set_array_position known
        (DynamicArray.element_mem_area (by omega))]
      exact none value known
    · omega
    · exact ⟨list, leads, rfl, zeros⟩
  unfold DynamicArray.clear
  apply (leads.shown.reads_size separate.fits (by omega) leads.sound).bind
  apply erasing.bind
  rintro _ between _ ⟨later, reached, length, none⟩
  have emptied : set.Leads words limit [] (between.set set.members.lengthCell
      (Word.ofCount 0)) := by
    apply reached.set_array separate
      (set.members.lengthCell_mem_area capacity)
    · exact Nat.zero_le _
    · exact fun value member => absurd member List.not_mem_nil
    · refine ⟨Contents.set_same _ _ _, ?_⟩
      exact fun index indexWithin => absurd indexWithin (Nat.not_lt_zero _)
    · intro index value found place known
      rw [none value known] at place
      have indexWithin := (List.getElem?_eq_some_iff.mp found).1
      exact (Word.ofCount_succ_ne_zero (by omega) place.symm).elim
  apply (set.members.safe_writeSize 0 reached.sound emptied.sound).mono
  rintro _ after _ ⟨_, rfl⟩
  refine ⟨Contents.set_same _ _ _, ?_⟩
  intro value known
  rw [separate.set_array_position known
    (set.members.lengthCell_mem_area capacity)]
  exact none value known

theorem Leads.safe_clear (within : limit ≤ capacity) (zeroKnown : 0 ∈ words) :
    Layout.Safe causes (set.Sound words limit) set.clear contents
      (fun _ after => after set.members.lengthCell = 0 ∧
        ∀ value ∈ words, after (set.positionCell value) = 0) := by
  unfold clear
  apply (leads.safe_forget separate within).bind
  rintro _ between _ ⟨reached, zeros⟩
  exact reached.safe_clearMembers separate within zeroKnown zeros

end Operations

/-! ## Calls -/

/-- By how many words a call may lengthen the array. -/
def Call.growth : Call → Nat
  | .add _ => 1
  | _ => 0

/-- How many of the calls add a word. -/
def Call.additions : List Call → Nat
  | [] => 0
  | call :: calls => call.growth + additions calls

theorem Leads.safe_perform {causes : StoreError → Prop} {call : Call}
    (leads : set.Leads words limit list contents)
    (separate : set.Separate words capacity)
    (within : limit + call.growth ≤ capacity) (zeroKnown : 0 ∈ words)
    (known : call.Within words) :
    Layout.Safe causes (set.Sound words (limit + call.growth))
      (call.perform set) contents (fun _ _ => True) := by
  have bounded := leads.bounded
  have room : limit ≤ capacity := by omega
  cases call with
  | add value =>
      apply (leads.safe_add separate within known).bind
      exact fun answer after kept _ => Layout.Safe.pure kept trivial
  | remove value =>
      apply (leads.safe_remove separate room known).bind
      exact fun answer after kept _ => Layout.Safe.pure kept trivial
  | clear =>
      apply (leads.safe_clear separate room zeroKnown).bind
      exact fun answer after kept _ => Layout.Safe.pure kept trivial
  | contains value =>
      apply (leads.reads_contains value).bind
      exact Layout.Safe.pure leads.sound trivial
  | size =>
      apply (leads.shown.reads_size separate.fits (bounded.trans room)
        leads.sound).bind
      exact Layout.Safe.pure leads.sound trivial
  | isEmpty =>
      apply (leads.shown.reads_isEmpty separate.fits (bounded.trans room)
        leads.sound).bind
      exact Layout.Safe.pure leads.sound trivial
  | members =>
      apply (leads.shown.reads_toList separate.fits (bounded.trans room)
        leads.sound).bind
      exact Layout.Safe.pure leads.sound trivial

/-! ## Runs -/

/-- What holds of a set at any time, whatever has failed: a position that is
not zero leads to its word, a word that the set contains is listed, and
clearing the set still works. -/
structure Dependable (set : EnumerableSet) (words : Set Word)
    (contents : Contents) : Prop where
  leads : ∀ value ∈ words, contents (set.positionCell value) ≠ 0 →
    1 ≤ (contents (set.positionCell value)).toNat ∧
      (contents (set.positionCell value)).toNat ≤
        (contents set.members.lengthCell).toNat ∧
      contents (set.members.lengthCell.shift
        (contents (set.positionCell value)).toNat) = value
  listed : ∀ value ∈ words, (set.contains value).Runs contents true contents →
    ∃ list, set.toList.Runs contents list contents ∧ value ∈ list
  clears : ∃ after, set.clear.Runs contents () after ∧
    after set.members.lengthCell = 0 ∧
    ∀ value ∈ words, after (set.positionCell value) = 0

theorem Sound.dependable (sound : set.Sound words limit contents)
    (separate : set.Separate words capacity) (within : limit ≤ capacity)
    (zeroKnown : 0 ∈ words) : set.Dependable words contents := by
  obtain ⟨list, leads⟩ := sound
  have bounded := leads.bounded
  have counts := separate.fits.counts
  constructor
  · intro value known nonzero
    rcases leads.points value known with zero | ⟨index, found, place⟩
    · exact absurd zero nonzero
    · obtain ⟨indexWithin, rfl⟩ := List.getElem?_eq_some_iff.mp found
      rw [place, leads.shown.size, Word.toNat_ofCount (by omega),
        Word.toNat_ofCount (by omega)]
      exact ⟨by omega, by omega, leads.shown.elements index indexWithin⟩
  · intro value known contained
    have reads : Layout.Reads (fun _ => False) (fun _ => True) set.toList
        contents list :=
      leads.shown.reads_toList separate.fits (bounded.trans within) trivial
    refine ⟨list, reads.runs, ?_⟩
    rcases leads.points value known with zero | ⟨index, found, _⟩
    · have answered : (set.contains value).Runs contents
          (decide (contents (set.positionCell value) ≠ 0)) contents :=
        (Layout.runs_read (set.positionCell value) contents).bind (.pure _ _)
      rw [zero] at answered
      unfold Action.Runs at answered contained
      rw [contained] at answered
      simp at answered
    · exact List.mem_of_getElem? found
  · obtain ⟨_, after, runs, cleared⟩ :=
      (leads.safe_clear separate within zeroKnown).runs
    exact ⟨after, runs, cleared⟩

theorem Leads.of_empty
    (empty : ∀ cell ∈ set.area words capacity, contents cell = 0) :
    set.Leads words 0 [] contents := by
  refine ⟨Nat.le_refl 0, ?_, ⟨?_, ?_⟩, ?_⟩
  · exact fun value member => absurd member List.not_mem_nil
  · exact empty _ (set.members_area_subset words capacity
      (set.members.lengthCell_mem_area capacity))
  · exact fun index within => absurd within (Nat.not_lt_zero index)
  · exact fun value known => .inl (empty _ (positionCell_mem_area known))

/-- Whichever store calls of a run fail, and whatever is tried afterwards: at
any time positions lead to their words, and no call of the run fails for a
cause of its own. -/
theorem trace_dependable (hasher : Hasher) (space : Namespace)
    (setKey : Slot) (words : Set Word) (calls : List Call)
    (plan : FaultPlan) (before : Contents) (zeroKnown : 0 ∈ words)
    (within : ∀ call ∈ calls, call.Within words)
    (separate : (ofKey hasher space setKey).Separate words
      (Call.additions calls))
    (empty : ∀ cell ∈ (ofKey hasher space setKey).area words
      (Call.additions calls), before cell = 0) :
    let program := Action.attempts
      (Call.perform (ofKey hasher space setKey)) calls
    (∀ state ∈ program.trace (Contents.backend.withFaults plan)
        ⟨before, 0, 0⟩,
      (ofKey hasher space setKey).Dependable words state.state) ∧
    ∀ error, .error error ∈ (program.run (Contents.backend.withFaults plan)
        ⟨before, 0, 0⟩).1 →
      ∃ cause, plan.Causes cause ∧ error = .store cause := by
  intro program
  have safe : program.Safe plan.Causes
      ((ofKey hasher space setKey).Sound words (Call.additions calls))
      (fun answers _ => ∀ answer ∈ answers, ∀ error, answer = .error error →
        ∃ cause, plan.Causes cause ∧ error = .store cause) before := by
    apply Layout.Safe.attempts (fun left contents =>
      (∀ call ∈ left, call.Within words) ∧ ∃ limit,
        limit + Call.additions left ≤ Call.additions calls ∧
          (ofKey hasher space setKey).Sound words limit contents)
    · rintro left contents ⟨_, limit, room, list, leads⟩
      exact (leads.mono (by omega)).sound
    · rintro call left contents ⟨known, limit, room, list, leads⟩
      have room : limit + (call.growth + Call.additions left) ≤
        Call.additions calls := room
      apply (leads.safe_perform separate (by omega) zeroKnown
        (known call List.mem_cons_self)).weaken
      intro between sound
      refine ⟨?_, limit + call.growth, by omega, sound⟩
      exact fun later member => known later (List.mem_cons_of_mem call member)
    · exact ⟨within, 0, by omega, [], Leads.of_empty empty⟩
  obtain ⟨kept, ends⟩ := safe.trace_run ⟨before, 0, 0⟩
  constructor
  · exact fun state member =>
      (kept state member).dependable separate (Nat.le_refl _) zeroKnown
  · exact fun error member => ends _ member error rfl

/-- Under Keccak-256, a removal fails after it has dropped the position, and
is tried again. -/
theorem trace_dependable_keccak :
    let set := ofKey HashAlgorithm.keccak256.hasher .storageProcessor ⟨5⟩
    let program := Action.attempts (Call.perform set)
      [.add 7, .add 0, .remove 7, .remove 7, .clear]
    let plan := FaultPlan.afterCalls 17 (.io "gone")
    set.Separate ({0, 7} : Finset Word) 2 ∧
    (∀ state ∈ program.trace (Contents.backend.withFaults plan)
        ⟨Contents.empty, 0, 0⟩,
      set.Dependable ({0, 7} : Finset Word) state.state) ∧
    ∀ error, .error error ∈ (program.run (Contents.backend.withFaults plan)
        ⟨Contents.empty, 0, 0⟩).1 →
      ∃ cause, plan.Causes cause ∧ error = .store cause := by
  intro set program plan
  refine ⟨keccak_separate, ?_⟩
  exact trace_dependable HashAlgorithm.keccak256.hasher .storageProcessor ⟨5⟩
    ({0, 7} : Finset Word) [.add 7, .add 0, .remove 7, .remove 7, .clear] plan
    Contents.empty (by simp) (by simp [Call.Within]) keccak_separate
    (fun _ _ => rfl)

end EnumerableSet

end SlotStorage
