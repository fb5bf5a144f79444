import SlotStorage.Proofs.Layout.BlobFaults
import SlotStorage.Proofs.Record.Binary
import SlotStorage.Proofs.Zstd.Plain
import SlotStorage.Record.Store

/-!
# Records in blobs

A frame is read by its tag, so it does not matter which codec wrote it.  The
blob of a key tells the record of the key, and the empty blob that there is
none.
-/

namespace SlotStorage

/-- What was compressed can be decompressed. -/
def Compression.Inverts [Compression] : Prop :=
  ∀ level content, Compression.decompress?
    (Compression.compress level content) = some content

theorem Compression.inverts_plain : Compression.plain.Inverts :=
  fun _ content => Zstd.decompress?_compress content

theorem RecordCodec.decode_encode [Compression]
    (inverts : Compression.Inverts) (codec : RecordCodec) (payload : Bytes) :
    RecordCodec.decode (codec.encode payload) = .ok payload := by
  cases codec with
  | raw => rfl
  | zstd level =>
      have inverse := inverts level payload
      unfold RecordCodec.encode RecordCodec.decode
      simp [RecordCodec.tag, inverse]

/-- A frame has a tag at least, so it is not taken for a missing one. -/
theorem RecordCodec.isEmpty_encode [Compression] (codec : RecordCodec)
    (payload : Bytes) : (codec.encode payload).isEmpty = false :=
  rfl

namespace RecordAction

/-- How an operation may end: with a goal, or with a cause of the store. -/
def Ends {α : Type} (causes : StoreError → Prop) (goal : α → Contents → Prop)
    (answer : Except RecordError α) (after : Contents) : Prop :=
  match answer with
  | .ok result => goal result after
  | .error error => ∃ cause, causes cause ∧ error = .layout (.store cause)

/-- Whichever calls fail, all contents are kept, and the operation reaches the
goal unless it reports the failure of a call. -/
def Safe {α : Type} (causes : StoreError → Prop) (keeps : Contents → Prop)
    (action : RecordAction α) (before : Contents)
    (goal : α → Contents → Prop) : Prop :=
  action.run.Safe causes keeps (Ends causes goal) before

variable {α β : Type} {action : Layout α} {area : Set Cell} {result : α}
  {before after : Contents} {reached : Contents → Prop}
  {causes : StoreError → Prop} {keeps : Contents → Prop}
  {goal : α → Contents → Prop} {last : β → Contents → Prop}

theorem runs_ofLayout (runs : action.Runs before result after) :
    (ofLayout action).Runs before result after := by
  have inner : Program.run Contents.backend action.run before =
      (.ok result, after) := runs
  change Program.run Contents.backend (do
    let answer ← action.run
    pure (answer.mapError RecordError.layout)) before = _
  rw [Program.run_bind, inner]
  rfl

theorem achieves_ofLayout
    (achieves : action.Achieves area before result reached) :
    (ofLayout action).Achieves area before result reached := by
  obtain ⟨after, runs, same, reached⟩ := achieves
  exact ⟨after, runs_ofLayout runs, same, reached⟩

theorem safe_ofLayout (safe : Layout.Safe causes keeps action before goal) :
    Safe causes keeps (ofLayout action) before goal := by
  change (action.run >>= fun answer =>
    pure (answer.mapError RecordError.layout)).Safe _ _ _ _
  apply Program.Safe.bind safe
  intro answer after kept ends
  refine ⟨kept, ?_⟩
  cases answer with
  | ok result => exact ends
  | error error =>
      obtain ⟨cause, picked, rfl⟩ := ends
      exact ⟨cause, picked, rfl⟩

theorem Safe.pure (kept : keeps before) (reached : goal result before) :
    Safe causes keeps (Pure.pure result) before goal :=
  ⟨kept, reached⟩

theorem Safe.bind {action : RecordAction α} {next : α → RecordAction β}
    (first : Safe causes keeps action before goal)
    (second : ∀ result between, keeps between → goal result between →
      Safe causes keeps (next result) between last) :
    Safe causes keeps (action >>= next) before last := by
  change (action.run >>= ExceptT.bindCont next).Safe causes keeps
    (Ends causes last) before
  apply Program.Safe.bind first
  intro answer between kept ends
  cases answer with
  | ok result => exact second result between kept ends
  | error error => exact ⟨kept, ends⟩

/-- On a store that does not fail, a safe operation gives a result. -/
theorem Safe.runs {action : RecordAction α}
    (safe : Safe (fun _ => False) keeps action before goal) :
    ∃ result after, action.Runs before result after ∧ goal result after := by
  have ends := Program.Safe.run safe
  change Ends _ goal (action.runOn Contents.backend before).1
    (action.runOn Contents.backend before).2 at ends
  rcases run : action.runOn Contents.backend before with ⟨answer, after⟩
  rw [run] at ends
  cases answer with
  | ok result => exact ⟨result, after, run, ends⟩
  | error error =>
      obtain ⟨cause, impossible, _⟩ := ends
      exact impossible.elim

theorem Safe.runs_eq {action : RecordAction α}
    (safe : Safe (fun _ => False) (fun _ => True) action before
      (fun answer later => answer = result ∧ later = after)) :
    action.Runs before result after := by
  obtain ⟨answer, later, runs, rfl, rfl⟩ := safe.runs
  exact runs

theorem Safe.achieves {action : RecordAction α}
    (safe : Safe (fun _ => False) (fun _ => True) action before
      (fun answer after => answer = result ∧ reached after)) :
    action.Achieves Set.univ before result reached := by
  obtain ⟨answer, after, runs, rfl, goalReached⟩ := safe.runs
  exact runs.achieves (fun cell outside => absurd trivial outside) goalReached

end RecordAction

/-- The blob holds a frame of the record, or is empty if there is none. -/
def Blob.Keeps {α : Type} [Compression] (blob : Blob)
    (format : BinaryFormat α) (capacity : Nat) (record : Option α)
    (contents : Contents) : Prop :=
  ∃ frame, blob.Holds capacity frame contents ∧
    RecordStore.decodeFrame format frame = .ok record

/-- Where all cells are empty, there is no record. -/
theorem Blob.Blank.keeps {α : Type} [Compression] {blob : Blob}
    {limit : Nat} {contents : Contents} (blank : blob.Blank limit contents)
    (format : BinaryFormat α) :
    blob.Keeps format (limit + 1) none contents := by
  refine ⟨[], .of_empty (Nat.succ_pos limit) ?_, rfl⟩
  rintro cell ⟨offset, within, rfl⟩
  exact blank offset (Nat.le_of_lt_succ within)

theorem Blob.Keeps.tracked {α : Type} [Compression] {blob : Blob}
    {format : BinaryFormat α} {limit : Nat} {record : Option α}
    {contents : Contents}
    (keeps : blob.Keeps format (limit + 1) record contents)
    (reaches : blob.key.Reaches limit) : blob.Tracked limit contents := by
  obtain ⟨frame, holds, _⟩ := keeps
  exact holds.tracked reaches

theorem Blob.Keeps.congr {α : Type} [Compression] {blob : Blob}
    {format : BinaryFormat α} {capacity : Nat} {record : Option α}
    {contents after : Contents}
    (keeps : blob.Keeps format capacity record contents)
    (same : ∀ cell ∈ blob.area capacity, after cell = contents cell) :
    blob.Keeps format capacity record after := by
  obtain ⟨frame, holds, decoded⟩ := keeps
  exact ⟨frame, holds.congr same, decoded⟩

namespace RecordStore

variable [Compression] {α : Type} {records : RecordStore}
  {format : BinaryFormat α} {key : EntityKey} {capacity : Nat}
  {contents : Contents} {record : Option α}

/-- The frame that the record store writes for a record. -/
def frameOf (records : RecordStore) (format : BinaryFormat α) (record : α) :
    Bytes :=
  records.codec.encode (format.write record)

theorem decodeFrame_frameOf (inverts : Compression.Inverts)
    (records : RecordStore) {record : α} (reads : format.ReadsBack record) :
    decodeFrame format (records.frameOf format record) =
      .ok (some record) := by
  have payload := records.codec.decode_encode inverts (format.write record)
  have value := reads.decode []
  rw [List.append_nil] at value
  unfold decodeFrame frameOf
  rw [RecordCodec.isEmpty_encode, if_neg Bool.false_ne_true]
  simp only [payload, bind, Except.bind, value]

/-- What is read from a frame that is not empty is read from its payload. -/
theorem decodeFrame_eq_ok {frame : Bytes} {found : Option α}
    (decoded : decodeFrame format frame = .ok found) :
    (frame = [] ∧ found = none) ∨ ∃ payload value,
      RecordCodec.decode frame = .ok payload ∧
        format.decode payload = .ok value ∧ found = some value := by
  unfold decodeFrame at decoded
  by_cases empty : frame.isEmpty
  · rw [if_pos empty] at decoded
    exact .inl ⟨List.isEmpty_iff.mp empty, (Except.ok.inj decoded).symm⟩
  · rw [if_neg empty] at decoded
    cases payload : RecordCodec.decode frame with
    | error error =>
        rw [payload] at decoded
        cases decoded
    | ok content =>
        simp only [payload, bind, Except.bind] at decoded
        cases value : format.decode content with
        | ok record =>
            rw [value] at decoded
            exact .inr ⟨content, record, rfl, value,
              (Except.ok.inj decoded).symm⟩
        | error cause =>
            rw [value] at decoded
            cases decoded

/-- Only an empty frame stands for no record. -/
theorem decodeFrame_none {frame : Bytes}
    (decoded : decodeFrame format frame = .ok none) : frame = [] := by
  obtain ⟨empty, -⟩ | ⟨_, _, _, _, present⟩ := decodeFrame_eq_ok decoded
  · exact empty
  · cases present

section Operations

variable
  (keeps : (records.blobFor key).Keeps format capacity record contents)
  (fits : (records.blobFor key).Fits capacity)

include keeps fits

theorem safe_load {causes : StoreError → Prop} {stays : Contents → Prop}
    (kept : stays contents) :
    RecordAction.Safe causes stays (records.load format key) contents
      (fun answer after => answer = record ∧ after = contents) := by
  obtain ⟨frame, holds, decoded⟩ := keeps
  unfold load
  apply (RecordAction.safe_ofLayout (holds.reads_get fits kept)).bind
  rintro _ _ _ ⟨rfl, rfl⟩
  rw [decoded]
  exact .pure kept ⟨rfl, rfl⟩

theorem load_runs :
    (records.load format key).Runs contents record contents :=
  (safe_load keeps fits trivial).runs_eq

theorem store_achieves (inverts : Compression.Inverts) {later : α}
    (reads : format.ReadsBack later)
    (holdable : Blob.Holdable capacity (records.frameOf format later)) :
    (records.store format key later).Achieves
      ((records.blobFor key).area capacity) contents ()
      ((records.blobFor key).Keeps format capacity (some later)) := by
  obtain ⟨frame, holds, _⟩ := keeps
  unfold store
  apply (RecordAction.achieves_ofLayout
    (holds.set_achieves fits holdable)).mono (Set.Subset.refl _)
  intro after _ written
  exact ⟨records.frameOf format later, written,
    decodeFrame_frameOf inverts records reads⟩

theorem delete_achieves :
    (records.delete key).Achieves ((records.blobFor key).area capacity)
      contents () ((records.blobFor key).Keeps format capacity none) := by
  obtain ⟨frame, holds, _⟩ := keeps
  unfold RecordStore.delete
  apply (RecordAction.achieves_ofLayout (holds.delete_achieves fits)).mono
    (Set.Subset.refl _)
  intro after _ deleted
  exact ⟨[], deleted, rfl⟩

end Operations

end RecordStore

end SlotStorage
