import SlotStorage.Proofs.Layout.BlobTears
import SlotStorage.Proofs.Record.Calls
import SlotStorage.Proofs.Record.Exactness

/-!
# Torn records

A record is stored without a checksum, so a frame with zeros in place of its
last bytes may be read as a record.  Uncompressed, it is one only if the cut
goes through the owner: the owner comes last, behind its length, and zeros
where the length should be do not announce an owner.  Everything else of a
torn record is then what was stored.  Of a compressed frame nothing more can
be said than what decompressing makes of it.
-/

namespace SlotStorage

/-- Zeros in place of all bytes of the owner after the first ones. -/
def Metadata.keepOwner (count : Nat) (record : Metadata) : Metadata :=
  { record with
    owner := Octets.ofBytes 20 (record.owner.toBytes.blankFrom count) }

namespace BinaryFormat

variable {record found : Metadata} {bytes : Bytes} {kept : Nat}

theorem length_metadata_write (record : Metadata) :
    (metadata.write record).length =
      (unowned.write record).length + 28 := by
  rw [metadata_write_eq, List.length_append]
  change _ + (writeNumber 20 ++ record.owner.toBytes).length = _
  rw [List.length_append, Octets.length_toBytes]
  rfl

/-- The length of the owner starts with the byte twenty. -/
theorem getElem?_owner_mark
    (decoded : metadata.decode bytes = .ok record) :
    bytes[(unowned.write record).length]? = some 20 := by
  obtain ⟨-, rest, rfl⟩ := metadata_decode_eq_ok_iff.mp decoded
  rw [metadata_write_eq, List.append_assoc,
    List.getElem?_append_right (Nat.le_refl _), Nat.sub_self]
  rfl

/-- Zeros alone are no record. -/
theorem decode_zeros_ne (count : Nat) (record : Metadata) :
    metadata.decode (List.replicate count 0) ≠ .ok record := by
  intro decoded
  have mark := List.mem_of_getElem? (getElem?_owner_mark decoded)
  exact absurd (List.eq_of_mem_replicate mark) (by decide)

/-- A record that is read in spite of a cut has its whole owner length before
the cut. -/
theorem owner_mark_lt
    (decoded : metadata.decode (bytes.blankFrom kept) = .ok found) :
    (unowned.write found).length < kept := by
  have mark := getElem?_owner_mark decoded
  by_contra later
  by_cases whole : bytes.length ≤ kept
  · rw [Bytes.blankFrom_of_le whole, List.getElem?_eq_none (by omega)] at mark
    cases mark
  · have front : (bytes.take kept).length ≤ (unowned.write found).length := by
      rw [List.length_take]
      omega
    rw [Bytes.blankFrom, List.getElem?_append_right front] at mark
    have zero := List.eq_of_mem_replicate (List.mem_of_getElem? mark)
    exact absurd zero (by decide)

/-- Two records at the front of the same bytes agree up to their owners. -/
theorem unowned_write_eq_of_prefix (recordEncodable : record.Encodable)
    (foundEncodable : found.Encodable)
    (recordWithin : unowned.write record <+: bytes)
    (foundWithin : unowned.write found <+: bytes) :
    unowned.write found = unowned.write record := by
  obtain ⟨recordRest, recordFront⟩ := recordWithin
  obtain ⟨foundRest, foundFront⟩ := foundWithin
  have recordRead := unowned_takes recordEncodable recordRest
  have foundRead := unowned_takes foundEncodable foundRest
  rw [recordFront] at recordRead
  rw [foundFront, recordRead] at foundRead
  have same : { record with owner := 0 } = { found with owner := 0 } :=
    congrArg Prod.fst (Except.ok.inj foundRead)
  exact (congrArg unowned.write same).symm

/-- A cut through the owner leaves what is written for a record with a
shorter owner. -/
theorem metadata_write_blankFrom
    (marked : (unowned.write record).length < kept) :
    (metadata.write record).blankFrom kept = metadata.write
      (record.keepOwner (kept - (unowned.write record).length - 8)) := by
  obtain ⟨more, split⟩ : ∃ more,
      kept - (unowned.write record).length = more + 1 :=
    Nat.exists_eq_succ_of_ne_zero (by omega)
  have mark : writeNumber 20 = 20 :: List.replicate 7 0 := by decide
  have width : (writeNumber 20).length = 8 := rfl
  have announced : (writeNumber 20).blankFrom (more + 1) = writeNumber 20 := by
    rw [mark, Bytes.blankFrom_cons, Bytes.blankFrom_zeros]
  have owner : (record.keepOwner (more + 1 - 8)).owner.toBytes =
      record.owner.toBytes.blankFrom (more + 1 - 8) := by
    apply Octets.toBytes_ofBytes
    rw [Bytes.length_blankFrom, Octets.length_toBytes]
  rw [metadata_write_eq, Bytes.blankFrom_append, split,
    Bytes.blankFrom_of_le (Nat.le_of_lt marked), metadata_write_eq]
  change unowned.write record ++
      (writeNumber 20 ++ record.owner.toBytes).blankFrom (more + 1) =
    unowned.write record ++
      (writeNumber 20 ++ (record.keepOwner (more + 1 - 8)).owner.toBytes)
  rw [Bytes.blankFrom_append, announced, owner, width]

theorem keepOwner_encodable (encodable : record.Encodable) (count : Nat) :
    (record.keepOwner count).Encodable :=
  ⟨encodable.strings, encodable.numbers, encodable.stringTexts,
    encodable.numberTexts⟩

/-- If what is written for a record is read with zeros after the first bytes,
then the cut goes through the owner. -/
theorem decode_blankFrom (encodable : record.Encodable)
    (decoded : metadata.decode ((metadata.write record).blankFrom kept) =
      .ok found) :
    (metadata.write record).length ≤ kept + 27 ∧
      found = record.keepOwner
        (kept + 20 - (metadata.write record).length) := by
  have length := length_metadata_write record
  have marked := owner_mark_lt decoded
  obtain ⟨foundEncodable, written⟩ := metadata_decode_eq_ok_iff.mp decoded
  have front : unowned.write found <+: metadata.write record := by
    have within : unowned.write found <+:
        (metadata.write record).blankFrom kept :=
      (List.prefix_append _ _).trans (metadata_write_eq found ▸ written)
    have cut := List.prefix_take_iff.mpr ⟨within, Nat.le_of_lt marked⟩
    rw [Bytes.take_blankFrom (Nat.le_refl kept)] at cut
    exact cut.trans (List.take_prefix _ _)
  have fields := unowned_write_eq_of_prefix encodable foundEncodable
    (List.prefix_append _ _) front
  rw [fields] at marked
  have offset : kept - (unowned.write record).length - 8 =
      kept + 20 - (metadata.write record).length := by omega
  rw [metadata_write_blankFrom marked, offset] at decoded
  have read := (metadata_readsBack (keepOwner_encodable encodable
    (kept + 20 - (metadata.write record).length))).decode []
  rw [List.append_nil, decoded] at read
  exact ⟨by omega, Except.ok.inj read⟩

end BinaryFormat

namespace RecordStore

section Torn

variable [Compression]

/-- What a record may be read as after its frame was cut at the boundary of a
cell: uncompressed, a record with a shorter owner, if the cut goes through
the owner, and otherwise what is decompressed from the rest of the frame. -/
def Torn (codec : RecordCodec) (record found : Metadata) : Prop :=
  let frame := codec.encode (BinaryFormat.metadata.write record)
  ∃ cells, 0 < cells ∧ 32 * cells < frame.length ∧
    match codec with
    | .raw => frame.length ≤ 32 * cells + 27 ∧
      found = record.keepOwner (32 * cells + 20 - frame.length)
    | .zstd level => ∃ payload,
      Compression.decompress? (Bytes.blankFrom (32 * cells - 1)
        (Compression.compress level (BinaryFormat.metadata.write record))) =
          some payload ∧
      BinaryFormat.metadata.decode payload = .ok found

variable {records : RecordStore} {record found : Metadata}

theorem decompress?_of_decode {body payload : Bytes}
    (decoded : RecordCodec.decode (0x01 :: body) = .ok payload) :
    Compression.decompress? body = some payload := by
  unfold RecordCodec.decode at decoded
  dsimp only at decoded
  rw [if_neg (by decide), if_pos rfl] at decoded
  cases content : Compression.decompress? body with
  | none =>
      rw [content] at decoded
      cases decoded
  | some other =>
      rw [content] at decoded
      rw [Except.ok.inj decoded]

/-- If the tag of a frame is still there, the tag tells what the cut is to be
read as. -/
theorem torn_of_decode {codec : RecordCodec} {payload : Bytes} {cells : Nat}
    (encodable : record.Encodable) (started : 0 < cells)
    (inside : 32 * cells <
      (codec.encode (BinaryFormat.metadata.write record)).length)
    (content : RecordCodec.decode
      ((codec.encode (BinaryFormat.metadata.write record)).blankFrom
        (32 * cells)) = .ok payload)
    (read : BinaryFormat.metadata.decode payload = .ok found) :
    Torn codec record found := by
  obtain ⟨kept, boundary⟩ : ∃ kept, 32 * cells = kept + 1 :=
    Nat.exists_eq_succ_of_ne_zero (by omega)
  refine ⟨cells, started, inside, ?_⟩
  rw [boundary] at inside content ⊢
  unfold RecordCodec.encode at inside content
  rw [Bytes.blankFrom_cons] at content
  cases codec with
  | raw =>
      rw [← Except.ok.inj content] at read
      obtain ⟨near, same⟩ := BinaryFormat.decode_blankFrom encodable read
      refine ⟨Nat.succ_le_succ near, ?_⟩
      rw [same]
      change _ = record.keepOwner (kept + 1 + 20 -
        ((BinaryFormat.metadata.write record).length + 1))
      rw [Nat.add_right_comm, Nat.add_sub_add_right]
  | zstd level =>
      exact ⟨payload, decompress?_of_decode content, read⟩

/-- A frame that is cut at the boundary of a cell is read as the record or as
a torn one. -/
theorem decodeFrame_blankFrom (inverts : Compression.Inverts)
    (encodable : record.Encodable) {cells : Nat}
    (decoded : decodeFrame BinaryFormat.metadata
      ((records.frameOf BinaryFormat.metadata record).blankFrom
        (32 * cells)) = .ok (some found)) :
    found = record ∨ Torn records.codec record found := by
  by_cases whole :
      (records.frameOf BinaryFormat.metadata record).length ≤ 32 * cells
  · left
    rw [Bytes.blankFrom_of_le whole, decodeFrame_frameOf inverts records
      (BinaryFormat.metadata_readsBack encodable)] at decoded
    exact (Option.some.inj (Except.ok.inj decoded)).symm
  · right
    obtain ⟨-, absent⟩ | ⟨payload, value, content, read, present⟩ :=
      decodeFrame_eq_ok decoded
    · cases absent
    · obtain rfl := Option.some.inj present
      by_cases started : 0 < cells
      · exact torn_of_decode encodable started (Nat.lt_of_not_le whole)
          content read
      · -- The tag is cut off too, and zeros are an uncompressed frame.
        obtain rfl := Nat.eq_zero_of_not_pos started
        have zeros : RecordCodec.decode (Bytes.blankFrom (32 * 0)
            (records.frameOf BinaryFormat.metadata record)) =
              .ok (List.replicate (records.frameOf BinaryFormat.metadata
                record).tail.length 0) := rfl
        rw [zeros] at content
        rw [← Except.ok.inj content] at read
        exact absurd read (BinaryFormat.decode_zeros_ne _ found)

end Torn

/-! ## Frames on a shelf -/

section Frames

variable {shelf : Shelf} {keys : Finset EntityKey} {dataCells : Nat}
  {frames : EntityKey → Bytes} {contents after : Contents}
  {key : EntityKey}

/-- Every blob holds the frame of its key. -/
def Shelf.Holds (shelf : Shelf) (keys : Finset EntityKey) (dataCells : Nat)
    (frames : EntityKey → Bytes) (contents : Contents) : Prop :=
  ∀ key ∈ keys,
    (shelf.blob key).Holds (dataCells + 1) (frames key) contents

theorem Shelf.Holds.update (holds : shelf.Holds keys dataCells frames contents)
    (apart : shelf.Apart keys dataCells) (known : key ∈ keys) {frame : Bytes}
    (same : contents.SameOff ((shelf.blob key).area (dataCells + 1)) after)
    (held : (shelf.blob key).Holds (dataCells + 1) frame after) :
    shelf.Holds keys dataCells (Function.update frames key frame) after := by
  intro other otherKnown
  by_cases changed : other = key
  · rw [changed, Function.update_self]
    exact held
  · rw [Function.update_of_ne changed]
    exact (holds other otherKnown).congr
      (apart.same_other known otherKnown changed same)

variable [Compression]

/-- The frame of what was written last for a key. -/
def frameWritten : Option (RecordCodec × Metadata) → Bytes
  | none => []
  | some (codec, record) =>
    codec.encode (BinaryFormat.metadata.write record)

namespace Call

/-- What was written last for each key, after the call. -/
def written (before : EntityKey → Option (RecordCodec × Metadata)) :
    Call → EntityKey → Option (RecordCodec × Metadata)
  | .store codec key record => Function.update before key (codec, record)
  | .load _ _ => before
  | .delete _ key => Function.update before key none

/-- What was written last for each key, after calls. -/
def writtenAfter (before : EntityKey → Option (RecordCodec × Metadata))
    (calls : List Call) : EntityKey → Option (RecordCodec × Metadata) :=
  calls.foldl written before

/-- The frame of each key after the call. -/
def nextFrames (before : EntityKey → Bytes) : Call → EntityKey → Bytes
  | .store codec key record => Function.update before key
    (codec.encode (BinaryFormat.metadata.write record))
  | .load _ _ => before
  | .delete _ key => Function.update before key []

/-- The call does not change the record of the key. -/
def Spares (key : EntityKey) : Call → Prop
  | .store _ other _ | .delete _ other => key ≠ other
  | .load _ _ => True

instance (key : EntityKey) (call : Call) : Decidable (call.Spares key) :=
  match call with
  | .store _ _ _ | .delete _ _ => inferInstanceAs (Decidable (_ ≠ _))
  | .load _ _ => inferInstanceAs (Decidable True)

end Call

variable {calls : List Call}
  {last : EntityKey → Option (RecordCodec × Metadata)}

theorem load_runOn {records : RecordStore} {capacity : Nat} {frame : Bytes}
    (holds : (records.blobFor key).Holds capacity frame contents)
    (fits : (records.blobFor key).Fits capacity) :
    (records.load BinaryFormat.metadata key).runOn Contents.backend contents =
      (decodeFrame BinaryFormat.metadata frame, contents) := by
  have gets := RecordAction.runs_ofLayout (holds.runs_get fits)
  unfold load
  rw [Action.runOn_bind, gets]
  rfl

/-- Whichever calls fail while a record is stored, the other frames stay, and
a remnant of two frames is there in place of the one. -/
theorem Shelf.Holds.failed_store
    (holds : shelf.Holds keys dataCells frames contents)
    (apart : shelf.Apart keys dataCells) {codec : RecordCodec}
    {record : Metadata}
    (within : (Call.store codec key record).Within shelf keys dataCells)
    (plan : FaultPlan) :
    ∃ found, Blob.Remnant (frames key)
        ((shelf.records codec).frameOf BinaryFormat.metadata record) found ∧
      shelf.Holds keys dataCells (Function.update frames key found)
        (((shelf.records codec).store BinaryFormat.metadata key record).runOn
          (Contents.backend.withFaults plan) ⟨contents, 0, 0⟩).2.state := by
  obtain ⟨known, -, holdable⟩ := within
  have safe : RecordAction.Safe plan.Causes
      ((shelf.blob key).Tears (dataCells + 1) (frames key)
        ((shelf.records codec).frameOf BinaryFormat.metadata record) contents)
      ((shelf.records codec).store BinaryFormat.metadata key record) contents
      (fun _ _ => True) :=
    RecordAction.safe_ofLayout
      ((holds key known).safe_set_tears (apart.fits known) holdable)
  obtain ⟨same, found, remnant, held⟩ := safe.kept_run ⟨contents, 0, 0⟩
  exact ⟨found, remnant, holds.update apart known same held⟩

namespace Call

theorem perform_holds (apart : shelf.Apart keys dataCells) {call : Call}
    (within : call.Within shelf keys dataCells)
    (holds : shelf.Holds keys dataCells frames contents) :
    ∃ answer after,
      (call.perform shelf).runOn Contents.backend contents =
        (answer, after) ∧
      shelf.Holds keys dataCells (call.nextFrames frames) after := by
  cases call with
  | store codec key record =>
      obtain ⟨known, -, holdable⟩ := within
      obtain ⟨after, runs, same, held⟩ := RecordAction.achieves_ofLayout
        ((holds key known).set_achieves (apart.fits known) holdable)
      exact ⟨_, after, runs.bind (.pure _ _),
        holds.update apart known same held⟩
  | load codec key =>
      have loads : ((shelf.records codec).load BinaryFormat.metadata key).runOn
          Contents.backend contents = _ :=
        load_runOn (holds key within) (apart.fits within)
      refine ⟨(decodeFrame BinaryFormat.metadata (frames key)).map .loaded,
        contents, ?_, holds⟩
      unfold perform
      rw [Action.runOn_bind, loads]
      cases decodeFrame BinaryFormat.metadata (frames key) <;> rfl
  | delete codec key =>
      obtain ⟨after, runs, same, held⟩ := RecordAction.achieves_ofLayout
        ((holds key within).delete_achieves (apart.fits within))
      exact ⟨_, after, runs.bind (.pure _ _),
        holds.update apart within same held⟩

theorem attempts_hold (apart : shelf.Apart keys dataCells)
    (within : ∀ call ∈ calls, call.Within shelf keys dataCells)
    (holds : shelf.Holds keys dataCells frames contents) :
    ∃ answers after,
      (Action.attempts (perform shelf) calls).run Contents.backend contents =
        (answers, after) ∧
      shelf.Holds keys dataCells (calls.foldl Call.nextFrames frames)
        after := by
  induction calls generalizing frames contents with
  | nil => exact ⟨[], contents, rfl, holds⟩
  | cons call calls induction =>
      obtain ⟨answer, between, first, held⟩ :=
        perform_holds apart (within call List.mem_cons_self) holds
      obtain ⟨answers, after, others, last⟩ := induction (fun later member =>
        within later (List.mem_cons_of_mem call member)) held
      exact ⟨answer :: answers, after,
        Action.run_attempts_cons first others, last⟩

theorem frames_spared (spared : ∀ call ∈ calls, call.Spares key) :
    calls.foldl Call.nextFrames frames key = frames key := by
  induction calls generalizing frames with
  | nil => rfl
  | cons call calls induction =>
      have others : calls.foldl Call.nextFrames (call.nextFrames frames) key =
          call.nextFrames frames key :=
        induction fun later member =>
          spared later (List.mem_cons_of_mem call member)
      have first := spared call List.mem_cons_self
      rw [List.foldl_cons, others]
      cases call with
      | store codec other record => exact Function.update_of_ne first _ _
      | load codec other => rfl
      | delete codec other => exact Function.update_of_ne first _ _

/-- The frames are those of what was written last. -/
theorem frames_written (calls : List Call)
    (last : EntityKey → Option (RecordCodec × Metadata)) :
    calls.foldl Call.nextFrames (frameWritten ∘ last) =
      frameWritten ∘ writtenAfter last calls := by
  induction calls generalizing last with
  | nil => rfl
  | cons call calls induction =>
      have first : call.nextFrames (frameWritten ∘ last) =
          frameWritten ∘ call.written last := by
        cases call with
        | store codec key record =>
            exact (Function.comp_update frameWritten last key
              (some (codec, record))).symm
        | load codec key => rfl
        | delete codec key =>
            exact (Function.comp_update frameWritten last key none).symm
      rw [List.foldl_cons, first, induction]
      rfl

/-- What is written in a call can be written. -/
theorem encodable_of_written {call : Call}
    (within : call.Within shelf keys dataCells)
    (encodable : ∀ key codec record, last key = some (codec, record) →
      record.Encodable) (key : EntityKey) (codec : RecordCodec)
    (record : Metadata) (found : call.written last key = some (codec, record)) :
    record.Encodable := by
  cases call with
  | store newCodec other new =>
      by_cases changed : key = other
      · rw [changed, written, Function.update_self] at found
        cases found
        exact within.2.1
      · rw [written, Function.update_of_ne changed] at found
        exact encodable key codec record found
  | load _ other => exact encodable key codec record found
  | delete _ other =>
      by_cases changed : key = other
      · rw [changed, written, Function.update_self] at found
        cases found
      · rw [written, Function.update_of_ne changed] at found
        exact encodable key codec record found

theorem encodable_of_writtenAfter
    (within : ∀ call ∈ calls, call.Within shelf keys dataCells)
    (encodable : ∀ key codec record, last key = some (codec, record) →
      record.Encodable) {codec : RecordCodec} {record : Metadata}
    (found : writtenAfter last calls key = some (codec, record)) :
    record.Encodable := by
  induction calls generalizing last with
  | nil => exact encodable key codec record found
  | cons call calls induction =>
      exact induction (fun later member =>
        within later (List.mem_cons_of_mem call member))
        (encodable_of_written (within call List.mem_cons_self) encodable) found

end Call

end Frames

/-- A record store that was run without failures and then fails while it
stores a record: what is loaded later, after any calls that spare the key, is
the new record, the one before, or what is left of one of them.  Nothing else
is ever taken for a record. -/
theorem failed_store_tears [Compression] (inverts : Compression.Inverts)
    (shelf : Shelf) (keys : Finset EntityKey) (dataCells : Nat)
    (apart : shelf.Apart keys dataCells) (calls others : List Call)
    (within : ∀ call ∈ calls, call.Within shelf keys dataCells)
    (codec : RecordCodec) (key : EntityKey) (record : Metadata)
    (storable : (Call.store codec key record).Within shelf keys dataCells)
    (plan : FaultPlan)
    (spared : ∀ call ∈ others,
      call.Within shelf keys dataCells ∧ call.Spares key)
    (reader : RecordCodec) :
    let before := ((Action.attempts (Call.perform shelf) calls).run
      Contents.backend Contents.empty).2
    let failed :=
      (((shelf.records codec).store BinaryFormat.metadata key record).runOn
        (Contents.backend.withFaults plan) ⟨before, 0, 0⟩).2.state
    let later := ((Action.attempts (Call.perform shelf) others).run
      Contents.backend failed).2
    ∃ answer,
      ((shelf.records reader).load BinaryFormat.metadata key).runOn
        Contents.backend later = (answer, later) ∧
      ∀ found, answer = .ok (some found) →
        (found = record ∨ Torn codec record found) ∨
        ∃ oldCodec old,
          Call.writtenAfter (fun _ => none) calls key = some (oldCodec, old) ∧
            (found = old ∨ Torn oldCodec old found) := by
  intro before failed later
  have empty : shelf.Holds keys dataCells
      (frameWritten ∘ fun _ => none) Contents.empty :=
    fun _ _ => .of_empty (Nat.succ_pos _) (fun _ _ => rfl)
  obtain ⟨answers, between, run, held⟩ :=
    Call.attempts_hold apart within empty
  have start : before = between := congrArg Prod.snd run
  rw [← start, Call.frames_written] at held
  obtain ⟨bytes, remnant, torn⟩ := held.failed_store apart storable plan
  obtain ⟨laterAnswers, after, laterRun, kept⟩ := Call.attempts_hold apart
    (fun call member => (spared call member).1) torn
  have finish : later = after := congrArg Prod.snd laterRun
  have holds := kept key storable.1
  rw [← finish, Call.frames_spared fun call member => (spared call member).2,
    Function.update_self] at holds
  refine ⟨decodeFrame BinaryFormat.metadata bytes,
    load_runOn holds (apart.fits storable.1), ?_⟩
  intro found decoded
  cases remnant with
  | nothing => cases decoded
  | ofNew cells =>
      exact .inl (decodeFrame_blankFrom inverts storable.2.1 decoded)
  | ofOld cells =>
      rw [Function.comp_apply] at decoded
      cases last : Call.writtenAfter (fun _ => none) calls key with
      | none =>
          rw [last, frameWritten, Bytes.blankFrom_of_le (Nat.zero_le _)]
            at decoded
          cases decoded
      | some pair =>
          obtain ⟨oldCodec, old⟩ := pair
          rw [last] at decoded
          have encodable : old.Encodable :=
            Call.encodable_of_writtenAfter within
              (fun _ _ _ absurd => by cases absurd) last
          have read : found = old ∨
              Torn (shelf.records oldCodec).codec old found :=
            decodeFrame_blankFrom inverts encodable decoded
          exact .inr ⟨oldCodec, old, rfl, read⟩

/-- Under Keccak-256, storing a record over one with an annotation breaks off
after the first data cell is emptied.  Another record is deleted before a
store that reads every codec loads what is left. -/
theorem failed_store_tears_keccak :
    letI := Compression.plain
    let shelf : Shelf := ⟨.storageProcessor, HashAlgorithm.keccak256.hasher⟩
    let keys : Finset EntityKey := [⟨0⟩, ⟨7⟩].toFinset
    let old : Metadata := ⟨9, [⟨"a", ""⟩], [], BitVec.allOnes 160⟩
    let new : Metadata := ⟨5, [], [], 0⟩
    let calls : List Call := [.store .raw ⟨0⟩ new, .store (.zstd 3) ⟨7⟩ old]
    let others : List Call := [.delete .raw ⟨0⟩]
    let plan : FaultPlan := .writesAfter 1 fun _ => .io "gone"
    shelf.Apart keys 4 ∧ (∀ call ∈ calls, call.Within shelf keys 4) ∧
    (Call.store .raw ⟨7⟩ new).Within shelf keys 4 ∧
    (∀ call ∈ others, call.Within shelf keys 4 ∧ call.Spares ⟨7⟩) ∧
    let before := ((Action.attempts (Call.perform shelf) calls).run
      Contents.backend Contents.empty).2
    let failed :=
      (((shelf.records .raw).store BinaryFormat.metadata ⟨7⟩ new).runOn
        (Contents.backend.withFaults plan) ⟨before, 0, 0⟩).2.state
    let later := ((Action.attempts (Call.perform shelf) others).run
      Contents.backend failed).2
    ∃ answer,
      ((shelf.records .raw).load BinaryFormat.metadata ⟨7⟩).runOn
        Contents.backend later = (answer, later) ∧
      ∀ found, answer = .ok (some found) →
        (found = new ∨ Torn .raw new found) ∨
        ∃ oldCodec old,
          Call.writtenAfter (fun _ => none) calls ⟨7⟩ =
            some (oldCodec, old) ∧ (found = old ∨ Torn oldCodec old found) := by
  intro shelf keys old new calls others plan
  have apart : shelf.Apart keys 4 :=
    ⟨by decide +kernel, by decide +kernel⟩
  have within : ∀ call ∈ calls,
      @Call.Within Compression.plain shelf keys 4 call := by
    decide +kernel
  have storable :
      @Call.Within Compression.plain shelf keys 4 (.store .raw ⟨7⟩ new) := by
    decide +kernel
  have spared : ∀ call ∈ others,
      @Call.Within Compression.plain shelf keys 4 call ∧ call.Spares ⟨7⟩ := by
    decide +kernel
  exact ⟨apart, within, storable, spared,
    @failed_store_tears Compression.plain Compression.inverts_plain shelf keys
      4 apart calls others within .raw ⟨7⟩ new storable plan spared .raw⟩

/-- Under Keccak-256 a third record is loaded after such a failure, with
either codec: the old one with zeros in place of the last bytes of its
owner.  At the lowest level repetitions are only sought at steps longer than
these records and literals stay as they are, so that a frame is the one plain
block that is written here at every level. -/
theorem failed_store_third_record_keccak :
    letI := Compression.plain
    let shelf : Shelf := ⟨.storageProcessor, HashAlgorithm.keccak256.hasher⟩
    let old : Metadata := ⟨9, [⟨"a", ""⟩], [], BitVec.allOnes 160⟩
    let new : Metadata := ⟨5, [], [], 0⟩
    let loaded (codec : RecordCodec) :=
      let before := ((Action.attempts (Call.perform shelf)
        [.store codec ⟨7⟩ old]).run Contents.backend Contents.empty).2
      let failed :=
        ((shelf.records codec).store BinaryFormat.metadata ⟨7⟩ new).runOn
          (Contents.backend.withFaults
            (.writesAfter 1 fun _ => .io "gone")) ⟨before, 0, 0⟩
      (failed.1, (((shelf.records codec).load BinaryFormat.metadata ⟨7⟩).runOn
        Contents.backend failed.2.state).1)
    loaded .raw = (.error (.layout (.store (.io "gone"))),
      .ok (some (old.keepOwner 14))) ∧
    loaded (.zstd (-131072)) = (.error (.layout (.store (.io "gone"))),
      .ok (some (old.keepOwner 5))) ∧
    (old.keepOwner 14 ≠ old ∧ old.keepOwner 14 ≠ new) ∧
    old.keepOwner 5 ≠ old ∧ old.keepOwner 5 ≠ new := by
  decide +kernel

end RecordStore

end SlotStorage
