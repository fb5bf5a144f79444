import Mathlib.Tactic.NormNum
import Mathlib.Tactic.Ring
import SlotStorage.Proofs.Cells

/-!
# Words and slots as integers

The bytes of a word spell one integer, most significant byte first.  Comparing
bytes compares the integers, steps along the slots add to them, and a word
holds a 64-bit number exactly if its integer is small enough.  Lengths,
positions and addresses are therefore read in one way.
-/

namespace SlotStorage

namespace Bytes

theorem ofLittleEndian_append (low high : Bytes) :
    ofLittleEndian (low ++ high) =
      ofLittleEndian low + 256 ^ low.length * ofLittleEndian high := by
  induction low with
  | nil => simp [ofLittleEndian]
  | cons byte low induction =>
      rw [List.cons_append, ofLittleEndian, ofLittleEndian, induction,
        List.length_cons]
      ring

theorem ofBigEndian_append (high low : Bytes) :
    ofBigEndian (high ++ low) =
      ofBigEndian high * 256 ^ low.length + ofBigEndian low := by
  rw [ofBigEndian, List.reverse_append, ofLittleEndian_append,
    List.length_reverse]
  exact (Nat.add_comm _ _).trans
    (congrArg (· + ofBigEndian low) (Nat.mul_comm _ _))

/-- The first byte is the highest one. -/
theorem ofBigEndian_cons (byte : UInt8) (bytes : Bytes) :
    ofBigEndian (byte :: bytes) =
      byte.toNat * 256 ^ bytes.length + ofBigEndian bytes := by
  have first : ofBigEndian [byte] = byte.toNat := by
    simp [ofBigEndian, ofLittleEndian]
  rw [← List.singleton_append, ofBigEndian_append, first]

theorem ofBigEndian_eq_zero_iff (bytes : Bytes) :
    ofBigEndian bytes = 0 ↔ ∀ byte ∈ bytes, byte = 0 := by
  induction bytes with
  | nil => simp [ofBigEndian, ofLittleEndian]
  | cons byte bytes induction =>
      have first : byte.toNat = 0 ↔ byte = 0 := by
        rw [← UInt8.toNat_inj]
        rfl
      rw [ofBigEndian_cons, Nat.add_eq_zero_iff, induction,
        List.forall_mem_cons, Nat.mul_eq_zero, first]
      simp

/-! ## The order of byte strings -/

/-- A smaller high part decides, whatever the low parts are. -/
theorem lt_of_high_lt {high other low power : Nat} (rest : Nat)
    (smaller : high < other) (small : low < power) :
    high * power + low < other * power + rest := by
  calc
    high * power + low < high * power + power := by omega
    _ = (high + 1) * power := (Nat.succ_mul high power).symm
    _ ≤ other * power := Nat.mul_le_mul_right power smaller
    _ ≤ other * power + rest := Nat.le_add_right _ _

theorem compare_add_left (shared left right : Nat) :
    Ord.compare (shared + left) (shared + right) = Ord.compare left right := by
  rcases Nat.lt_trichotomy left right with less | equal | greater
  · rw [Nat.compare_eq_lt.mpr less, Nat.compare_eq_lt.mpr (by omega)]
  · rw [equal, Nat.compare_eq_eq.mpr rfl, Nat.compare_eq_eq.mpr rfl]
  · rw [Nat.compare_eq_gt.mpr greater, Nat.compare_eq_gt.mpr (by omega)]

/-- Byte strings of one length are ordered like the integers they spell: the
first byte that differs has the highest place. -/
theorem compare_eq_compare_ofBigEndian {left right : Bytes}
    (sameLength : left.length = right.length) :
    Bytes.compare left right =
      Ord.compare (ofBigEndian left) (ofBigEndian right) := by
  induction left generalizing right with
  | nil =>
      cases right with
      | nil => rfl
      | cons byte right => cases sameLength
  | cons first left induction =>
      cases right with
      | nil => cases sameLength
      | cons second right =>
          have tails : left.length = right.length := Nat.succ.inj sameLength
          have leftSmall := ofBigEndian_lt left
          have rightSmall := ofBigEndian_lt right
          rw [tails] at leftSmall
          rw [Bytes.compare, ofBigEndian_cons, ofBigEndian_cons, tails]
          by_cases less : first < second
          · have higher := lt_of_high_lt (ofBigEndian right)
              (UInt8.lt_iff_toNat_lt.mp less) leftSmall
            rw [if_pos less, Nat.compare_eq_lt.mpr higher]
          by_cases greater : second < first
          · have higher := lt_of_high_lt (ofBigEndian left)
              (UInt8.lt_iff_toNat_lt.mp greater) rightSmall
            rw [if_neg less, if_pos greater, Nat.compare_eq_gt.mpr higher]
          · have same : first.toNat = second.toNat := by
              rw [UInt8.lt_iff_toNat_lt] at less greater
              omega
            rw [if_neg less, if_neg greater, same, compare_add_left,
              induction tails]

end Bytes

namespace Octets

/-- The bytes of a number spell it. -/
theorem ofBigEndian_toBytes {width : Nat} (number : Octets width) :
    Bytes.ofBigEndian number.toBytes = number.toNat :=
  Bytes.ofBigEndian_bigEndian number.toNat_lt

end Octets

/-! ## Slots -/

namespace Slot

variable {slot other : Slot} {value offset : Nat}

theorem toNat_lt (slot : Slot) : slot.toNat < Word.bound :=
  slot.word.isLt

theorem toNat_inj : slot.toNat = other.toNat ↔ slot = other := by
  constructor
  · intro same
    obtain ⟨word⟩ := slot
    obtain ⟨otherWord⟩ := other
    exact congrArg Slot.mk (BitVec.eq_of_toNat_eq same)
  · exact congrArg toNat

theorem toBytes_eq (slot : Slot) :
    slot.toBytes = Bytes.bigEndian 32 slot.toNat :=
  rfl

theorem exists_toNat_eq (inside : value < Word.bound) :
    ∃ slot : Slot, slot.toNat = value :=
  ⟨⟨BitVec.ofNat (8 * 32) value⟩, Word.toNat_ofNat inside⟩

theorem ofNat?_eq_none_iff : ofNat? value = none ↔ Word.bound ≤ value := by
  unfold ofNat?
  split
  · simp; omega
  · simp; omega

/-- The integer of a slot is the only one that gives the slot. -/
theorem ofNat?_eq_some_iff : ofNat? value = some slot ↔ slot.toNat = value := by
  unfold ofNat?
  constructor
  · intro found
    split at found
    next inside =>
      cases found
      exact Word.toNat_ofNat inside
    next => cases found
  · rintro rfl
    rw [if_pos slot.toNat_lt]
    exact congrArg some (toNat_inj.mp (Word.toNat_ofNat slot.toNat_lt))

theorem add?_eq_some_iff :
    slot.add? offset = some other ↔ other.toNat = slot.toNat + offset :=
  ofNat?_eq_some_iff

theorem add?_eq_none_iff :
    slot.add? offset = none ↔ Word.bound ≤ slot.toNat + offset :=
  ofNat?_eq_none_iff

/-- Two steps lead as far as one of their sum, and past the last address if the
sum does. -/
theorem bind_add? (slot : Slot) (first second : Nat) :
    ((slot.add? first).bind fun between => between.add? second) =
      slot.add? (first + second) := by
  cases reached : slot.add? first with
  | none =>
      have beyond := add?_eq_none_iff.mp reached
      symm
      apply add?_eq_none_iff.mpr
      omega
  | some between =>
      have sum := add?_eq_some_iff.mp reached
      simp only [Option.bind_some, add?, sum, Nat.add_assoc]

theorem compare_eq_compare_toNat (left right : Slot) :
    left.compare right = Ord.compare left.toNat right.toNat := by
  rw [compare, Bytes.compare_eq_compare_ofBigEndian
    (by simp only [toBytes, Octets.length_toBytes])]
  simp only [toBytes, Octets.ofBigEndian_toBytes]
  rfl

/-- Cells that follow a base are ordered by their distance from it. -/
theorem add?_ascends {base first second : Slot} {left right : Nat}
    (firstReached : base.add? (left + 1) = some first)
    (secondReached : base.add? (right + 1) = some second) :
    first.compare second = Ord.compare left right ∧
      (first = second ↔ left = right) := by
  rw [add?_eq_some_iff] at firstReached secondReached
  have leftSum : first.toNat = base.toNat + 1 + left := by omega
  have rightSum : second.toNat = base.toNat + 1 + right := by omega
  constructor
  · rw [compare_eq_compare_toNat, leftSum, rightSum, Bytes.compare_add_left]
  · rw [← toNat_inj]
    omega

/-- Slots and integers of at most 256 bits turn into each other, and the bytes
of slots are ordered as the integers are.  A step is an addition that stops at
the last address; so two steps in a row are one, and the cells that follow a
base are all different and ascend. -/
theorem steps_add_integers :
    (∀ slot : Slot, ofNat? slot.toNat = some slot ∧
      Bytes.ofBigEndian slot.toBytes = slot.toNat) ∧
    (∀ value < Word.bound, ∃ slot, ofNat? value = some slot ∧
      slot.toNat = value ∧ slot.toBytes = Bytes.bigEndian 32 value) ∧
    (∀ left right : Slot,
      left.compare right = Ord.compare left.toNat right.toNat) ∧
    (∀ (slot other : Slot) (offset : Nat), slot.add? offset = some other ↔
      slot.toNat + offset < Word.bound ∧
        other.toNat = slot.toNat + offset) ∧
    (∀ (slot : Slot) (offset : Nat), slot.add? offset = none ↔
      Word.bound ≤ slot.toNat + offset) ∧
    (∀ (slot : Slot) (count : UInt64),
      slot.offset? count = slot.add? count.toNat) ∧
    (∀ slot : Slot, slot.next? = slot.offset? 1) ∧
    (∀ (slot : Slot) (first second : Nat),
      ((slot.add? first).bind fun between => between.add? second) =
        slot.add? (first + second)) ∧
    (∀ (base first second : Slot) (left right : Nat),
      base.add? (left + 1) = some first →
      base.add? (right + 1) = some second →
        first.compare second = Ord.compare left right ∧
          (first = second ↔ left = right)) := by
  refine ⟨?_, ?_, compare_eq_compare_toNat, ?_, ?_, fun _ _ => rfl,
    fun _ => rfl, bind_add?, fun _ _ _ _ _ => add?_ascends⟩
  · exact fun slot =>
      ⟨ofNat?_eq_some_iff.mpr rfl, Octets.ofBigEndian_toBytes slot.word⟩
  · intro value inside
    obtain ⟨slot, integer⟩ := exists_toNat_eq inside
    refine ⟨slot, ofNat?_eq_some_iff.mpr integer, integer, ?_⟩
    rw [toBytes_eq, integer]
  · intro slot other offset
    rw [add?_eq_some_iff]
    constructor
    · intro sum
      exact ⟨sum ▸ other.toNat_lt, sum⟩
    · exact And.right
  · exact fun slot offset => add?_eq_none_iff

/-- A step that carries from the last byte into the one before. -/
theorem steps_add_integers_carry :
    let base : Slot := ⟨0xfe⟩
    base.add? (0 + 1) = some ⟨0xff⟩ ∧ base.add? (1 + 1) = some ⟨0x100⟩ ∧
    (Slot.mk 0xff).compare ⟨0x100⟩ = .lt ∧ Slot.mk 0xff ≠ ⟨0x100⟩ := by
  intro base
  have firstReached : base.add? (0 + 1) = some ⟨0xff⟩ := by decide
  have secondReached : base.add? (1 + 1) = some ⟨0x100⟩ := by decide
  obtain ⟨_, _, _, _, _, _, _, _, ascend⟩ := steps_add_integers
  have ordered := ascend base ⟨0xff⟩ ⟨0x100⟩ 0 1 firstReached secondReached
  exact ⟨firstReached, secondReached, ordered.1,
    fun same => absurd (ordered.2.mp same) (by decide)⟩

end Slot

/-! ## Words that hold 64-bit numbers -/

namespace Word

variable {word : Word} {number : UInt64} {value : Nat}

/-- The leading bytes are zero exactly if the others spell the whole word. -/
theorem toUInt64?_eq (word : Word) :
    word.toUInt64? = word.toCount?.map UInt64.ofNat := by
  have places : 256 ^ (word.toBytes.drop 24).length = countBound := by
    rw [List.length_drop, Octets.length_toBytes]
    norm_num [countBound]
  have lowSmall := Bytes.ofBigEndian_lt (word.toBytes.drop 24)
  have split := Bytes.ofBigEndian_append (word.toBytes.take 24)
    (word.toBytes.drop 24)
  rw [places] at lowSmall
  rw [List.take_append_drop, Octets.ofBigEndian_toBytes, places] at split
  have leading : (word.toBytes.take 24).all (· == 0) = true ↔
      Bytes.ofBigEndian (word.toBytes.take 24) = 0 := by
    rw [Bytes.ofBigEndian_eq_zero_iff]
    simp
  unfold toUInt64? toCount?
  by_cases small : word.toNat < countBound
  · have zero : Bytes.ofBigEndian (word.toBytes.take 24) = 0 := by
      by_contra positive
      have larger := Nat.le_mul_of_pos_left countBound
        (Nat.pos_of_ne_zero positive)
      omega
    rw [zero, Nat.zero_mul, Nat.zero_add] at split
    rw [if_pos (leading.mpr zero), if_pos small, split]
    rfl
  · have nonzero : Bytes.ofBigEndian (word.toBytes.take 24) ≠ 0 := by
      intro zero
      rw [zero] at split
      omega
    rw [if_neg (mt leading.mp nonzero), if_neg small]
    rfl

theorem toNat_ofUInt64 (number : UInt64) :
    (ofUInt64 number).toNat = number.toNat :=
  toNat_ofCount number.toNat_lt

/-- Lengths and positions are read as 64-bit numbers are. -/
theorem toCount?_eq (word : Word) :
    word.toCount? = word.toUInt64?.map UInt64.toNat := by
  rw [toUInt64?_eq, toCount?]
  split
  next small =>
    exact congrArg some (UInt64.toNat_ofNat_of_lt small).symm
  next => rfl

theorem toUInt64?_eq_none_iff :
    word.toUInt64? = none ↔ countBound ≤ word.toNat := by
  rw [toUInt64?_eq, Option.map_eq_none_iff, toCount?]
  split
  · simp; omega
  · simp; omega

theorem toUInt64?_eq_some_iff :
    word.toUInt64? = some number ↔ word.toNat = number.toNat := by
  rw [toUInt64?_eq, toCount?]
  constructor
  · intro found
    split at found
    next small =>
      obtain rfl := Option.some.inj found
      exact (UInt64.toNat_ofNat_of_lt small).symm
    next => cases found
  · intro same
    have small : word.toNat < countBound := same ▸ number.toNat_lt
    rw [if_pos small, same]
    exact congrArg some UInt64.ofNat_toNat

theorem narrow?_eq_some_iff :
    narrow? value = some number ↔ value = number.toNat := by
  unfold narrow?
  split
  next inside => rw [toUInt64?_eq_some_iff, toNat_ofNat inside]
  next outside =>
    have small : number.toNat < countBound := number.toNat_lt
    have larger := countBound_lt_bound
    constructor
    · exact nofun
    · omega

/-- Words, integers of 256 bits and numbers of 64 bits turn into each other by
one reading of the bytes, most significant first: a word holds a 64-bit number
exactly if it is the word of that number, and slots and lengths are read in the
same way. -/
theorem conversions_share_reading :
    (∀ (word : Word) (number : UInt64),
      word.toUInt64? = some number ↔ word = ofUInt64 number) ∧
    (∀ word : Word, word.toUInt64? = none ↔ countBound ≤ word.toNat) ∧
    (∀ (value : Nat) (number : UInt64),
      narrow? value = some number ↔ value = number.toNat) ∧
    (∀ word : Word, BitVec.ofNat (8 * 32) word.toNat = word ∧
      Bytes.ofBigEndian word.toBytes = word.toNat ∧
      Octets.ofBytes 32 word.toBytes = word) ∧
    (∀ value < bound, (BitVec.ofNat (8 * 32) value : Word).toNat = value ∧
      Octets.toBytes (BitVec.ofNat (8 * 32) value) =
        Bytes.bigEndian 32 value) ∧
    (∀ number : UInt64, (Slot.ofUInt64 number).word = ofUInt64 number ∧
      Slot.ofNat? number.toNat = some (Slot.ofUInt64 number)) ∧
    (∀ word : Word, word.toCount? = word.toUInt64?.map UInt64.toNat) := by
  refine ⟨?_, fun _ => toUInt64?_eq_none_iff, fun _ _ => narrow?_eq_some_iff,
    ?_, ?_, ?_, toCount?_eq⟩
  · intro word number
    rw [toUInt64?_eq_some_iff, ← toNat_ofUInt64, BitVec.toNat_inj]
  · intro word
    exact ⟨BitVec.eq_of_toNat_eq (toNat_ofNat word.isLt),
      Octets.ofBigEndian_toBytes word, Octets.ofBytes_toBytes word⟩
  · intro value inside
    have integer := toNat_ofNat inside
    refine ⟨integer, ?_⟩
    rw [Octets.toBytes, integer]
  · intro number
    exact ⟨rfl, Slot.ofNat?_eq_some_iff.mpr (toNat_ofUInt64 number)⟩

/-- The integer after the largest 64-bit number has a word, but no 64-bit
number has it. -/
theorem conversions_share_reading_wide :
    let wide : Word := BitVec.ofNat (8 * 32) countBound
    countBound < bound ∧ wide.toNat = countBound ∧
    wide.toUInt64? = none ∧ wide.toCount? = none := by
  intro wide
  obtain ⟨_, none_iff, _, _, integers, _, counts⟩ := conversions_share_reading
  have integer : wide.toNat = countBound :=
    (integers countBound countBound_lt_bound).1
  have none : wide.toUInt64? = none := (none_iff wide).mpr integer.ge
  refine ⟨countBound_lt_bound, integer, none, ?_⟩
  rw [counts, none]
  rfl

end Word

end SlotStorage
