import Mathlib.Data.List.Nodup
import Mathlib.Data.Set.Function
import SlotStorage.Hash.Domain
import SlotStorage.Layout.Index
import SlotStorage.Proofs.Words

/-!
# Derived addresses are separate

Salts are joined to keys without a separator.  Still, the byte string that is
hashed tells what it is hashed for: a key has a fixed width, so the salt is
what stands before it, and the byte strings of different kinds have different
lengths.  Two derived slots can only be equal through a collision of the hash
function.
-/

namespace SlotStorage

theorem Octets.toBytes_injective {width : Nat} :
    Function.Injective (toBytes : Octets width → Bytes) := by
  intro left right same
  rw [← ofBytes_toBytes left, same, ofBytes_toBytes]

theorem Bytes.bigEndian_injOn (count : Nat) :
    Set.InjOn (bigEndian count) {value | value < 256 ^ count} := by
  intro left leftSmall right rightSmall same
  rw [← ofBigEndian_bigEndian leftSmall, same, ofBigEndian_bigEndian rightSmall]

/-- A key of a fixed width and the salt before it can be told apart. -/
theorem Octets.append_toBytes_inj {width : Nat} {salt otherSalt : Bytes}
    {key other : Octets width}
    (same : salt ++ key.toBytes = otherSalt ++ other.toBytes) :
    salt = otherSalt ∧ key = other := by
  have widths : key.toBytes.length = other.toBytes.length := by
    rw [length_toBytes, length_toBytes]
  obtain ⟨salts, keys⟩ := List.append_inj' same widths
  exact ⟨salts, toBytes_injective keys⟩

/-- The byte string that is hashed for a key. -/
def SaltedIndex.input (index : SaltedIndex) (key : Word) : Bytes :=
  index.hasher.salt ++ Octets.toBytes key

namespace Domain

/-- What a slot is derived for. -/
inductive Purpose where
  | position (setKey : Slot) (member : Word)
  | record (key : EntityKey)
  | registry
  | expiry (block : UInt64)
  deriving DecidableEq

namespace Purpose

/-- The byte string that is hashed. -/
def input : Purpose → Bytes
  | .position setKey member =>
    setSalt ++ setKey.toBytes ++ Octets.toBytes member
  | .record key => entitySalt ++ key.toBytes
  | .registry => registryLabel
  | .expiry block => expirySalt ++ Bytes.bigEndian 8 block.toNat

/-- The slot of a member's position, of the head of a record, or of a set. -/
def slot (hasher : Hasher) : Purpose → Slot
  | .position setKey member =>
    (setPositions hasher setKey).slot (Octets.toBytes member)
  | .record key => (entityRecords hasher).slot key.toBytes
  | .registry => registryKey hasher
  | .expiry block => expiryKey hasher block

theorem slot_eq (hasher : Hasher) (purpose : Purpose) :
    purpose.slot hasher = ⟨hasher.digest purpose.input⟩ := by
  cases purpose <;> rfl

/-- How many bytes are hashed: every kind has a count of its own. -/
def width : Purpose → Nat
  | .position _ _ => 76
  | .record _ => 44
  | .registry => 17
  | .expiry _ => 28

theorem length_input (purpose : Purpose) :
    purpose.input.length = purpose.width := by
  have salts : setSalt.length = 12 ∧ entitySalt.length = 12 ∧
      registryLabel.length = 17 ∧ expirySalt.length = 20 := by decide
  cases purpose <;>
    simp [input, width, Slot.toBytes, EntityKey.toBytes, salts]

theorem input_injective : Function.Injective input := by
  intro left right same
  -- Kinds differ in width; within a kind, the parts have fixed widths and are
  -- taken off from the right.
  have widths : left.width = right.width := by
    rw [← length_input, ← length_input, same]
  cases left with
  | position setKey member =>
      cases right with
      | position otherKey other =>
          obtain ⟨salts, rfl⟩ := Octets.append_toBytes_inj same
          obtain ⟨_, keys⟩ := Octets.append_toBytes_inj salts
          rw [show setKey = otherKey from congrArg Slot.mk keys]
      | _ => exact absurd widths (by simp [width])
  | record key =>
      cases right with
      | record other =>
          obtain ⟨_, keys⟩ := Octets.append_toBytes_inj same
          rw [show key = other from congrArg EntityKey.mk keys]
      | _ => exact absurd widths (by simp [width])
  | registry =>
      cases right with
      | registry => rfl
      | _ => exact absurd widths (by simp [width])
  | expiry block =>
      cases right with
      | expiry other =>
          have numbers := Bytes.bigEndian_injOn 8 block.toNat_lt other.toNat_lt
            (List.append_cancel_left same)
          rw [UInt64.toNat_inj.mp numbers]
      | _ => exact absurd widths (by simp [width])

/-- Without a collision among the byte strings in use, no two purposes share
a slot. -/
theorem slot_injOn {hasher : Hasher} {used : Set Purpose}
    (collisionFree : Set.InjOn hasher.digest (input '' used)) :
    Set.InjOn (slot hasher) used := by
  intro left leftUsed right rightUsed same
  rw [slot_eq, slot_eq] at same
  apply input_injective
  exact collisionFree ⟨left, leftUsed, rfl⟩ ⟨right, rightUsed, rfl⟩
    (congrArg Slot.word same)

/-- Whether listed purposes collide can be computed. -/
theorem injOn_digest_of_nodup {digest : Bytes → Word} {list : List Purpose}
    (distinct : (list.map fun purpose => digest purpose.input).Nodup) :
    Set.InjOn digest (input '' {purpose | purpose ∈ list}) := by
  rintro _ ⟨left, leftListed, rfl⟩ _ ⟨right, rightListed, rfl⟩ same
  rw [List.inj_on_of_nodup_map distinct leftListed rightListed same]

end Purpose

/-- What is hashed tells the purpose, or the salt and the key of an index; so
derived slots are as different as the hash function makes them. -/
theorem purposes_separated :
    (∀ (hasher : Hasher) (purpose : Purpose),
      purpose.slot hasher = ⟨hasher.digest purpose.input⟩) ∧
    Function.Injective Purpose.input ∧
    (∀ (index : SaltedIndex) (key : Word),
      index.slotFor key = ⟨index.hasher.hasher.digest (index.input key)⟩) ∧
    (∀ (left right : SaltedIndex) (key other : Word),
      left.input key = right.input other →
        left.hasher.salt = right.hasher.salt ∧ key = other) ∧
    ∀ (algorithm : HashAlgorithm) (used : Set Purpose),
      Set.InjOn algorithm.digest (Purpose.input '' used) →
        Set.InjOn (Purpose.slot algorithm.hasher) used := by
  refine ⟨Purpose.slot_eq, Purpose.input_injective, fun _ _ => rfl, ?_, ?_⟩
  · exact fun left right key other same => Octets.append_toBytes_inj same
  · exact fun algorithm used collisionFree => Purpose.slot_injOn collisionFree

/-- A set key and a member that change places, a record, the registry and two
blocks in a row, under either algorithm. -/
theorem purposes_separated_neighbours :
    let used : Set Purpose := {purpose | purpose ∈
      [.position ⟨5⟩ 7, .position ⟨7⟩ 5, .record ⟨7⟩, .registry, .expiry 7,
        .expiry 8]}
    (Set.InjOn HashAlgorithm.keccak256.digest (Purpose.input '' used) ∧
      Set.InjOn (Purpose.slot HashAlgorithm.keccak256.hasher) used) ∧
    (Set.InjOn HashAlgorithm.blake3.digest (Purpose.input '' used) ∧
      Set.InjOn (Purpose.slot HashAlgorithm.blake3.hasher) used) := by
  intro used
  have separated := purposes_separated.2.2.2.2
  have keccakFree : Set.InjOn HashAlgorithm.keccak256.digest
      (Purpose.input '' used) :=
    Purpose.injOn_digest_of_nodup (by decide +kernel)
  have blakeFree : Set.InjOn HashAlgorithm.blake3.digest
      (Purpose.input '' used) :=
    Purpose.injOn_digest_of_nodup (by decide +kernel)
  exact ⟨⟨keccakFree, separated _ used keccakFree⟩,
    ⟨blakeFree, separated _ used blakeFree⟩⟩

end Domain

end SlotStorage
