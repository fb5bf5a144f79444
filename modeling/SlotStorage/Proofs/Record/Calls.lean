import Mathlib.Data.Finset.Card
import SlotStorage.Proofs.Record.Store

/-!
# Runs of record calls

Record stores in one place make up a map from keys to records, whatever codec
each call writes with.  A record takes up the cells of its frame and no others,
so nothing is left of a longer frame or of a deleted record.
-/

namespace SlotStorage

namespace RecordStore

/-- What record stores that differ in their codecs only have in common. -/
structure Shelf where
  space : Namespace
  hasher : Hasher

namespace Shelf

/-- The record store that writes with a codec. -/
def records (shelf : Shelf) (codec : RecordCodec) : RecordStore :=
  ⟨shelf.space, shelf.hasher, codec⟩

/-- The blob of a key's record. -/
def blob (shelf : Shelf) (key : EntityKey) : Blob :=
  ⟨shelf.space, (Domain.entityRecords shelf.hasher).slot key.toBytes⟩

/-- Frames with so many cells after the head end before the last slot, and
those of different keys have no cell in common. -/
structure Apart (shelf : Shelf) (keys : Finset EntityKey)
    (dataCells : Nat) : Prop where
  reaches : ∀ key ∈ keys, (shelf.blob key).key.Reaches dataCells
  distinct : ∀ left ∈ keys, ∀ right ∈ keys, left ≠ right →
    ∀ offset ≤ dataCells, ∀ other ≤ dataCells,
      (shelf.blob left).cell offset ≠ (shelf.blob right).cell other

variable {shelf : Shelf} {keys : Finset EntityKey} {dataCells : Nat}

theorem Apart.fits (apart : shelf.Apart keys dataCells)
    {key : EntityKey} (known : key ∈ keys) :
    (shelf.blob key).Fits (dataCells + 1) :=
  .of_reaches (apart.reaches key known)

theorem Apart.not_mem_area (apart : shelf.Apart keys dataCells)
    {left right : EntityKey} (leftKnown : left ∈ keys)
    (rightKnown : right ∈ keys) (different : left ≠ right) {cell : Cell}
    (inside : cell ∈ (shelf.blob left).area (dataCells + 1)) :
    cell ∉ (shelf.blob right).area (dataCells + 1) := by
  rintro ⟨other, otherWithin, shared⟩
  obtain ⟨offset, within, rfl⟩ := inside
  exact apart.distinct left leftKnown right rightKnown different offset
    (Nat.le_of_lt_succ within) other (Nat.le_of_lt_succ otherWithin) shared

/-- A change to the blob of one key does not reach those of other keys. -/
theorem Apart.same_other (apart : shelf.Apart keys dataCells)
    {key other : EntityKey} (known : key ∈ keys) (otherKnown : other ∈ keys)
    (different : other ≠ key) {before after : Contents}
    (same : before.SameOff ((shelf.blob key).area (dataCells + 1)) after) :
    ∀ cell ∈ (shelf.blob other).area (dataCells + 1),
      after cell = before cell :=
  fun cell inside =>
    same cell (apart.not_mem_area otherKnown known different inside)

section Contents

variable [Compression]

/-- Every blob tells the record of its key, and there is nothing else. -/
structure Keeps (shelf : Shelf) (keys : Finset EntityKey) (dataCells : Nat)
    (stored : EntityKey → Option Metadata) (contents : Contents) :
    Prop where
  blobs : ∀ key ∈ keys, (shelf.blob key).Keeps BinaryFormat.metadata
    (dataCells + 1) (stored key) contents
  blank : ∀ cell, (∀ key ∈ keys,
    cell ∉ (shelf.blob key).area (dataCells + 1)) → contents cell = 0

/-- Every blob is the one of a frame that decodes to the record of its key,
and only cells of stored records are in use. -/
structure Filed (shelf : Shelf) (keys : Finset EntityKey) (dataCells : Nat)
    (stored : EntityKey → Option Metadata) (frames : EntityKey → Bytes)
    (contents : Contents) : Prop where
  decoded : ∀ key ∈ keys,
    decodeFrame BinaryFormat.metadata (frames key) = .ok (stored key)
  cells : ∀ key ∈ keys, ∀ offset ≤ dataCells,
    contents ((shelf.blob key).cell offset) =
      (Blob.encode (frames key)).getD offset 0
  used : ∀ cell, contents cell ≠ 0 → ∃ key ∈ keys, (stored key).isSome ∧
    ∃ offset < Blob.slotCount (frames key).length,
      cell = (shelf.blob key).cell offset

variable {stored : EntityKey → Option Metadata} {contents after : Contents}
  {key : EntityKey}

theorem keeps_empty (shelf : Shelf) (keys : Finset EntityKey)
    (dataCells : Nat) :
    shelf.Keeps keys dataCells (fun _ => none) Contents.empty :=
  ⟨fun _ _ => ⟨[], .of_empty (Nat.succ_pos _) (fun _ _ => rfl), rfl⟩,
    fun _ _ => rfl⟩

/-- A change to one blob changes the record of one key. -/
theorem Keeps.update (keeps : shelf.Keeps keys dataCells stored contents)
    (apart : shelf.Apart keys dataCells) (known : key ∈ keys)
    {record : Option Metadata}
    (same : contents.SameOff ((shelf.blob key).area (dataCells + 1)) after)
    (said : (shelf.blob key).Keeps BinaryFormat.metadata (dataCells + 1)
      record after) :
    shelf.Keeps keys dataCells (Function.update stored key record) after := by
  constructor
  · intro other otherKnown
    by_cases changed : other = key
    · rw [changed, Function.update_self]
      exact said
    · rw [Function.update_of_ne changed]
      exact (keeps.blobs other otherKnown).congr
        (apart.same_other known otherKnown changed same)
  · intro cell outside
    rw [same cell (outside key known)]
    exact keeps.blank cell outside

theorem Keeps.exists_filed
    (keeps : shelf.Keeps keys dataCells stored contents) :
    ∃ frames, shelf.Filed keys dataCells stored frames contents := by
  choose! frames holds decoded using keeps.blobs
  refine ⟨frames, decoded, ?_, ?_⟩
  · exact fun key known offset within =>
      (holds key known).cells offset (Nat.lt_succ_of_le within)
  · intro cell nonzero
    have owned : ∃ key ∈ keys,
        cell ∈ (shelf.blob key).area (dataCells + 1) := by
      by_contra outside
      apply nonzero
      apply keeps.blank cell
      exact fun key known inside => outside ⟨key, known, inside⟩
    obtain ⟨key, known, offset, within, rfl⟩ := owned
    have word : contents ((shelf.blob key).cell offset) =
        (Blob.encode (frames key)).getD offset 0 :=
      (holds key known).cells offset within
    have used : offset < Blob.slotCount (frames key).length := by
      by_contra later
      apply nonzero
      apply word.trans
      apply List.getD_eq_default
      rw [Blob.length_encode]
      omega
    refine ⟨key, known, ?_, offset, used, rfl⟩
    by_contra absent
    have none := decoded key known
    rw [Option.not_isSome_iff_eq_none.mp absent] at none
    apply nonzero
    apply word.trans
    rw [decodeFrame_none none, Blob.encode_nil]
    cases offset <;> rfl

end Contents

end Shelf

section Runs

variable [Compression]

/-- A call on a record store that writes with a codec. -/
inductive Call where
  | store (codec : RecordCodec) (key : EntityKey) (record : Metadata)
  | load (codec : RecordCodec) (key : EntityKey)
  | delete (codec : RecordCodec) (key : EntityKey)

/-- What a call answers. -/
inductive Answer where
  | done
  | loaded (record : Option Metadata)
  deriving DecidableEq

namespace Call

/-- The call on the storage. -/
def perform (shelf : Shelf) : Call → RecordAction Answer
  | .store codec key record => do
    (shelf.records codec).store BinaryFormat.metadata key record
    return .done
  | .load codec key => do
    return .loaded (← (shelf.records codec).load BinaryFormat.metadata key)
  | .delete codec key => do
    (shelf.records codec).delete key
    return .done

/-- The records after the call. -/
def next (stored : EntityKey → Option Metadata) :
    Call → EntityKey → Option Metadata
  | .store _ key record => Function.update stored key (some record)
  | .load _ _ => stored
  | .delete _ key => Function.update stored key none

/-- What a map of records answers. -/
def answer (stored : EntityKey → Option Metadata) : Call → Answer
  | .store _ _ _ | .delete _ _ => .done
  | .load _ key => .loaded (stored key)

/-- The answers to calls in a row. -/
def answers (stored : EntityKey → Option Metadata) :
    List Call → List Answer
  | [] => []
  | call :: calls => call.answer stored :: answers (call.next stored) calls

/-- The records after calls. -/
def storedAfter (stored : EntityKey → Option Metadata)
    (calls : List Call) : EntityKey → Option Metadata :=
  calls.foldl next stored

/-- The call keeps to the keys in use, and what it stores can be written and
fits in a blob. -/
def Within (shelf : Shelf) (keys : Finset EntityKey) (dataCells : Nat) :
    Call → Prop
  | .store codec key record => key ∈ keys ∧ record.Encodable ∧
    Blob.Holdable (dataCells + 1)
      ((shelf.records codec).frameOf BinaryFormat.metadata record)
  | .load _ key | .delete _ key => key ∈ keys

instance (shelf : Shelf) (keys : Finset EntityKey) (dataCells : Nat)
    (call : Call) : Decidable (call.Within shelf keys dataCells) :=
  match call with
  | .store _ _ _ => inferInstanceAs (Decidable (_ ∧ _ ∧ _))
  | .load _ _ | .delete _ _ => inferInstanceAs (Decidable (_ ∈ _))

variable {shelf : Shelf} {keys : Finset EntityKey} {dataCells : Nat}
  {stored : EntityKey → Option Metadata} {contents : Contents}

theorem perform_step (inverts : Compression.Inverts)
    (apart : shelf.Apart keys dataCells) {call : Call}
    (within : call.Within shelf keys dataCells)
    (keeps : shelf.Keeps keys dataCells stored contents) :
    ∃ after,
      (call.perform shelf).Runs contents (call.answer stored) after ∧
        shelf.Keeps keys dataCells (call.next stored) after := by
  cases call with
  | store codec key record =>
      obtain ⟨known, encodable, holdable⟩ := within
      have said : ((shelf.records codec).blobFor key).Keeps
          BinaryFormat.metadata (dataCells + 1) (stored key) contents :=
        keeps.blobs key known
      obtain ⟨after, runs, same, reached⟩ := store_achieves said
        (apart.fits known) inverts
        (BinaryFormat.metadata_readsBack encodable) holdable
      exact ⟨after, runs.bind (.pure _ _),
        keeps.update apart known same reached⟩
  | load codec key =>
      have said : ((shelf.records codec).blobFor key).Keeps
          BinaryFormat.metadata (dataCells + 1) (stored key) contents :=
        keeps.blobs key within
      exact ⟨contents,
        (load_runs said (apart.fits within)).bind (.pure _ _), keeps⟩
  | delete codec key =>
      have said : ((shelf.records codec).blobFor key).Keeps
          BinaryFormat.metadata (dataCells + 1) (stored key) contents :=
        keeps.blobs key within
      obtain ⟨after, runs, same, reached⟩ :=
        delete_achieves said (apart.fits within)
      exact ⟨after, runs.bind (.pure _ _),
        keeps.update apart within same reached⟩

theorem run_attempts (inverts : Compression.Inverts)
    (apart : shelf.Apart keys dataCells) {calls : List Call}
    (within : ∀ call ∈ calls, call.Within shelf keys dataCells)
    (keeps : shelf.Keeps keys dataCells stored contents) :
    ∃ after,
      (Action.attempts (perform shelf) calls).run Contents.backend contents =
          ((answers stored calls).map .ok, after) ∧
        shelf.Keeps keys dataCells (storedAfter stored calls) after := by
  induction calls generalizing stored contents with
  | nil => exact ⟨contents, rfl, keeps⟩
  | cons call calls induction =>
      obtain ⟨between, runs, reached⟩ :=
        perform_step inverts apart (within call List.mem_cons_self) keeps
      obtain ⟨after, others, last⟩ := induction (fun later member =>
        within later (List.mem_cons_of_mem call member)) reached
      exact ⟨after, Action.run_attempts_cons runs others, last⟩

end Call

/-- On an empty storage, every run of calls answers like the map from keys to
the records stored last, and the cells in use afterwards are those of the
frames of the stored records. -/
theorem attempts_refine_records (inverts : Compression.Inverts)
    (shelf : Shelf) (keys : Finset EntityKey) (dataCells : Nat)
    (apart : shelf.Apart keys dataCells) (calls : List Call)
    (within : ∀ call ∈ calls, call.Within shelf keys dataCells) :
    ∃ after,
      (Action.attempts (Call.perform shelf) calls).run Contents.backend
          Contents.empty =
        ((Call.answers (fun _ => none) calls).map .ok, after) ∧
      ∃ frames, shelf.Filed keys dataCells
        (Call.storedAfter (fun _ => none) calls) frames after := by
  obtain ⟨after, runs, keeps⟩ := Call.run_attempts inverts apart within
    (shelf.keeps_empty keys dataCells)
  exact ⟨after, runs, keeps.exists_filed⟩

end Runs

/-- Under Keccak-256, a record that is replaced by a shorter one with another
codec and read with a third one, beside one that is deleted. -/
theorem attempts_refine_records_keccak :
    letI := Compression.plain
    let shelf : Shelf := ⟨.storageProcessor, HashAlgorithm.keccak256.hasher⟩
    let keys : Finset EntityKey := [⟨0⟩, ⟨7⟩].toFinset
    let calls : List Call :=
      [.store (.zstd 3) ⟨0⟩ ⟨5, [⟨"name", "a"⟩], [⟨"size", 3⟩], 0⟩,
        .store .raw ⟨7⟩ ⟨9, [], [], 0⟩, .store .raw ⟨0⟩ ⟨9, [], [], 1⟩,
        .delete .raw ⟨7⟩, .load (.zstd 19) ⟨0⟩, .load .raw ⟨7⟩]
    shelf.Apart keys 4 ∧ (∀ call ∈ calls, call.Within shelf keys 4) ∧
    ∃ after,
      (Action.attempts (Call.perform shelf) calls).run Contents.backend
          Contents.empty =
        ([.done, .done, .done, .done, .loaded (some ⟨9, [], [], 1⟩),
          .loaded none].map .ok, after) ∧
      ∃ frames, shelf.Filed keys 4
        (Call.storedAfter (fun _ => none) calls) frames after := by
  intro shelf keys calls
  have apart : shelf.Apart keys 4 :=
    ⟨by decide +kernel, by decide +kernel⟩
  have within : ∀ call ∈ calls,
      @Call.Within Compression.plain shelf keys 4 call := by
    decide +kernel
  exact ⟨apart, within, @attempts_refine_records Compression.plain
    Compression.inverts_plain shelf keys 4 apart calls within⟩

end RecordStore

end SlotStorage
