import SlotStorage.Proofs.Layout.Outcomes
import SlotStorage.Proofs.Layout.SetCalls

/-!
# Sets on corrupt cells

On any contents an addition that ends with an error has changed nothing.  A
removal checks the position, the length and the last element before its first
write, but whether the position lies within the length it learns afterwards: a
position beyond the members is emptied before its place is refused.  This is
the only error that leaves a trace.
-/

namespace SlotStorage

namespace EnumerableSet

/-- The number in the position cell of a word, which need not be a place. -/
def place (set : EnumerableSet) (value : Word) (contents : Contents) : Nat :=
  (contents (set.positionCell value)).toNat

/-- A removal of the word goes wrong after its first write: the set has
members, the last of them lies within the slots, and the position of the word
is a count beyond all members. -/
structure Overruns (set : EnumerableSet) (value : Word)
    (contents : Contents) : Prop where
  occupied : 0 < set.members.claimed contents
  reaches : set.members.base.Reaches (set.members.claimed contents)
  beyond : set.members.claimed contents < set.place value contents
  counts : set.place value contents < Word.countBound

/-- What an error of a removal leaves. -/
def Refused (set : EnumerableSet) (value : Word) (before : Contents)
    (error : LayoutError) (after : Contents) : Prop :=
  set.Overruns value before ∧
      error = .indexOutOfRange (set.place value before - 1)
        (set.members.claimed before) ∧
      after = before.set (set.positionCell value) 0 ∨
    ¬ set.Overruns value before ∧ after = before

variable {set : EnumerableSet} {value : Word} {contents : Contents}

theorem Separate.positionCell_ne_lengthCell {words : Set Word}
    {capacity : Nat} (separate : set.Separate words capacity)
    (known : value ∈ words) :
    set.positionCell value ≠ set.members.lengthCell := by
  intro equality
  apply separate.apart value known
  rw [equality]
  exact set.members.lengthCell_mem_area capacity

theorem not_overruns_of_zero (zero : contents (set.positionCell value) = 0) :
    ¬ set.Overruns value contents := by
  intro overruns
  have none : set.place value contents = 0 := by
    rw [place, zero]
    rfl
  have beyond := overruns.beyond
  omega

/-- An array whose claimed elements lie within the slots gives the last one
away. -/
theorem concludes_shorten {allowed : LayoutError → Contents → Prop}
    {array : DynamicArray} {limit : Nat}
    (occupied : 0 < array.claimed contents)
    (within : array.claimed contents ≤ limit)
    (reaches : array.base.Reaches limit) (small : limit < Word.countBound) :
    Layout.Concludes (fun _ => False) allowed (do
        let _ ← array.removeLast
        return true) contents (fun _ _ => True) := by
  apply (DynamicArray.concludes_removeLast (fun _ _ => False.elim)
    (fun large => absurd (Nat.lt_of_le_of_lt within small) large)
    (fun empty => absurd empty (by omega))
    (fun outer => absurd (reaches.mono within) outer)).bind
  exact fun _ _ _ => Layout.Concludes.pure trivial

/-- Once the position is emptied, only the place that it led to may be
refused.  Even if the position of the last member is the length cell, the
number written there is the length of a shorter array. -/
theorem concludes_move {allowed : LayoutError → Contents → Prop}
    {size index : Nat} {last : Word}
    (claims : set.members.claimed contents = size) (occupied : 0 < size)
    (reaches : set.members.base.Reaches size) (small : size < Word.countBound)
    (outside : ¬ index < size →
      allowed (.indexOutOfRange index size) contents) :
    Layout.Concludes (fun _ => False) allowed (do
        set.members.set index last
        let place ← Layout.sum index 1
        let _ ← set.positions.set last (Word.ofCount place)
        let _ ← set.members.removeLast
        return true) contents (fun _ _ => index < size) := by
  apply (DynamicArray.concludes_set (fun _ => False.elim) claims
    (fun large => absurd small large) outside
    (fun within outer => absurd (reaches.mono within) outer) last).bind
  rintro _ _ ⟨within, _, rfl⟩
  have counts : index + 1 < Word.countBound := by omega
  rw [Layout.sum_eq counts, pure_bind]
  apply (Layout.concludes_write (set.positionCell last)
    (Word.ofCount (index + 1)) fun _ => False.elim).bind
  rintro _ moved ⟨_, rfl⟩
  have filled : set.members.claimed
      (contents.set (set.members.element index) last) = size := by
    rw [DynamicArray.claimed_set_element (reaches.mono within), claims]
  have seen := set.members.claimed_set_count
    (contents.set (set.members.element index) last) (set.positionCell last)
    counts
  exact (concludes_shorten (by omega) (by omega) reaches small).mono
    fun _ _ _ => within

/-- A removal meets every error before its first write, but for the place that
an overrunning position leads to. -/
theorem concludes_remove
    (apart : set.positionCell value ≠ set.members.lengthCell) :
    Layout.Concludes (fun _ => False) (set.Refused value contents)
      (set.remove value) contents
      (fun _ _ => ¬ set.Overruns value contents) := by
  apply (Layout.concludes_read (set.positionCell value)
    fun _ => False.elim).bind
  rintro position contents ⟨rfl, rfl⟩
  split
  next zero => exact Layout.Concludes.pure (not_overruns_of_zero zero)
  next nonzero =>
  apply (concludes_indexOf nonzero fun large =>
    .inr ⟨fun overruns => large overruns.counts, rfl⟩).bind
  rintro index contents ⟨found, counts, rfl⟩
  have found : index + 1 = set.place value contents := found
  apply (DynamicArray.concludes_size (fun _ => False.elim) rfl fun large =>
    .inr ⟨fun overruns =>
      large (overruns.beyond.trans overruns.counts), rfl⟩).bind
  rintro size contents ⟨claims, small, rfl⟩
  rw [← claims] at small
  have inside (within : index < size) : ¬ set.Overruns value contents := by
    intro overruns
    have beyond := overruns.beyond
    omega
  split
  next empty =>
    refine Layout.Concludes.throw (.inr ⟨fun overruns => ?_, rfl⟩)
    have occupied := overruns.occupied
    omega
  next occupied =>
  have occupied : 0 < size := by omega
  have lastPlace : size - 1 + 1 = size := by omega
  rw [Layout.difference_eq occupied, pure_bind]
  apply (DynamicArray.concludes_get (fun _ => False.elim) claims.symm
    (fun large => absurd small large) (fun outside => by omega)
    (fun _ outer => .inr ⟨fun overruns =>
      outer (by rw [lastPlace, claims]; exact overruns.reaches), rfl⟩)).bind
  rintro last contents ⟨reaches, _, rfl⟩
  rw [lastPlace] at reaches
  apply (Layout.concludes_write (set.positionCell value) 0
    fun _ => False.elim).bind
  rintro _ cleared ⟨_, emptied⟩
  have kept : set.members.claimed cleared = size := by
    rw [claims, emptied]
    exact congrArg BitVec.toNat (Contents.set_other apart.symm _ _)
  have refused (outside : ¬ index < size) :
      set.Refused value contents (.indexOutOfRange index size) cleared := by
    refine .inl ⟨⟨?_, ?_, ?_, counts⟩, ?_, emptied⟩
    · omega
    · rwa [← claims]
    · omega
    · rw [← found, ← claims, Nat.add_sub_cancel]
  by_cases isLast : index = size - 1
  · rw [if_neg (not_not.mpr isLast)]
    exact (concludes_shorten (by omega) (Nat.le_of_eq kept) reaches
      small).mono fun _ _ _ => inside (by omega)
  · rw [if_pos isLast]
    exact (concludes_move kept occupied reaches small refused).mono
      fun _ _ within => inside within

/-! ## What is left of a corrupt set -/

theorem Overruns.position_ne_zero (overruns : set.Overruns value contents) :
    contents (set.positionCell value) ≠ 0 :=
  fun zero => not_overruns_of_zero zero overruns

/-- The position is emptied before its place is refused. -/
theorem Overruns.remove_fails (overruns : set.Overruns value contents)
    (apart : set.positionCell value ≠ set.members.lengthCell) :
    (set.remove value).Fails contents
      (.indexOutOfRange (set.place value contents - 1)
        (set.members.claimed contents))
      (contents.set (set.positionCell value) 0) := by
  obtain ⟨error, after, fails, ⟨_, rfl, rfl⟩ | ⟨orderly, _⟩⟩ :=
    (concludes_remove apart).exists_fails fun _ _ missed => missed overruns
  · exact fails
  · exact absurd overruns orderly

theorem Overruns.set_ne (overruns : set.Overruns value contents) :
    contents.set (set.positionCell value) 0 ≠ contents := by
  intro same
  apply overruns.position_ne_zero
  rw [← same]
  exact Contents.set_same _ _ _

/-- Whatever the cells hold, an addition that ends with an error has changed
nothing.  A removal that ends with an error has changed nothing exactly if the
position does not overrun the members; a position that does is emptied. -/
theorem failures_keep_contents (set : EnumerableSet) (value : Word)
    (contents : Contents)
    (apart : set.positionCell value ≠ set.members.lengthCell) :
    (set.members.claimed contents ≠ Word.countBound - 1 →
      ∀ error after, (set.add value).Fails contents error after →
        after = contents) ∧
    (∀ error after, (set.remove value).Fails contents error after →
      (after = contents ↔ ¬ set.Overruns value contents)) ∧
    (set.Overruns value contents →
      (set.remove value).Fails contents
        (.indexOutOfRange (set.place value contents - 1)
          (set.members.claimed contents))
        (contents.set (set.positionCell value) 0)) := by
  refine ⟨?_, ?_, fun overruns => overruns.remove_fails apart⟩
  · intro spare error after fails
    have concludes : Layout.Concludes (fun _ => False)
        (fun _ after => after = contents) (set.add value) contents
        (fun _ _ => True) :=
      concludes_add value (fun _ _ => False.elim) spare rfl rfl
    exact concludes.allowed_of_fails fails
  · intro error after fails
    rcases (concludes_remove apart).allowed_of_fails fails with
      ⟨overruns, _, rfl⟩ | ⟨orderly, rfl⟩
    · exact iff_of_false overruns.set_ne (not_not.mpr overruns)
    · exact iff_of_true rfl orderly

/-- Under Keccak-256 a position that is no count is refused as it is. -/
theorem failures_keep_contents_keccak :
    let set := ofKey HashAlgorithm.keccak256.hasher .storageProcessor ⟨5⟩
    let contents := Contents.empty.set (set.positionCell 7)
      (Word.ofCount Word.countBound)
    set.positionCell 7 ≠ set.members.lengthCell ∧
    ¬ set.Overruns 7 contents ∧
    (set.remove 7).Fails contents
      (.corruptLength (set.positions.slotFor 7)) contents ∧
    ∀ error after, (set.remove 7).Fails contents error after →
      after = contents := by
  intro set contents
  have apart : set.positionCell 7 ≠ set.members.lengthCell :=
    keccak_separate.positionCell_ne_lengthCell (by simp)
  have position : contents (set.positionCell 7) =
      Word.ofCount Word.countBound := Contents.set_same _ _ _
  have orderly : ¬ set.Overruns 7 contents := by
    intro overruns
    have counts := overruns.counts
    rw [place, position] at counts
    exact absurd counts (by decide)
  have fails : (set.remove 7).Fails contents
      (.corruptLength (set.positions.slotFor 7)) contents := by
    apply (Layout.runs_read (set.positionCell 7) contents).bind_fails
    rw [position, if_neg (by decide)]
    exact Action.Fails.bind rfl
  refine ⟨apart, orderly, fails, ?_⟩
  intro error after fails
  exact ((failures_keep_contents set 7 contents apart).2.1 error after
    fails).mpr orderly

/-- Under Keccak-256 the only member has the position three.  Its removal is
refused, and the position is gone. -/
theorem failed_removal_empties_position :
    let set := ofKey HashAlgorithm.keccak256.hasher .storageProcessor ⟨5⟩
    let contents := ((Contents.empty.set set.members.lengthCell
      (Word.ofCount 1)).set (set.members.element 0) 7).set
        (set.positionCell 7) (Word.ofCount 3)
    let after := contents.set (set.positionCell 7) 0
    set.Separate ({0, 7} : Finset Word) 2 ∧
    (set.remove 7).Fails contents (.indexOutOfRange 2 1) after ∧
    after ≠ contents := by
  intro set contents after
  have apart : set.positionCell 7 ≠ set.members.lengthCell :=
    keccak_separate.positionCell_ne_lengthCell (by simp)
  have position : contents (set.positionCell 7) = Word.ofCount 3 :=
    Contents.set_same _ _ _
  have length : contents set.members.lengthCell = Word.ofCount 1 :=
    Contents.set_other apart.symm _ _
  have place : set.place 7 contents = 3 := by
    rw [EnumerableSet.place, position]
    rfl
  have claimed : set.members.claimed contents = 1 := by
    rw [DynamicArray.claimed, length]
    rfl
  have overruns : set.Overruns 7 contents := by
    refine ⟨?_, ?_, ?_, ?_⟩
    · omega
    · rw [claimed]
      decide
    · omega
    · rw [place]
      decide
  have fails := overruns.remove_fails apart
  rw [place, claimed] at fails
  exact ⟨keccak_separate, fails, overruns.set_ne⟩

end EnumerableSet

end SlotStorage
