import SlotStorage.Hash.Domain
import SlotStorage.Layout.Blob
import SlotStorage.Record.Frame

/-!
# Record stores

The record of an entity is kept as one blob whose head lies at the salted hash
of the entity's key.  An empty blob means that there is no record, since a
frame is never empty.
-/

namespace SlotStorage

/-- An operation on records. -/
abbrev RecordAction (α : Type) := Action RecordError α

namespace RecordAction

def ofLayout {α : Type} (action : Layout α) : RecordAction α :=
  ExceptT.mk do return (← action.run).mapError .layout

end RecordAction

/-- Where and how records are kept. -/
structure RecordStore where
  space : Namespace
  hasher : Hasher
  codec : RecordCodec

namespace RecordStore

def slotFor (records : RecordStore) (key : EntityKey) : Slot :=
  (Domain.entityRecords records.hasher).slot key.toBytes

def blobFor (records : RecordStore) (key : EntityKey) : Blob :=
  ⟨records.space, records.slotFor key⟩

/-- Stores a record of any type, in place of the one before. -/
def store {α : Type} [Compression] (records : RecordStore)
    (format : BinaryFormat α) (key : EntityKey) (record : α) :
    RecordAction Unit :=
  RecordAction.ofLayout ((records.blobFor key).set
    (records.codec.encode (format.write record)))

/-- The record that a frame holds; an empty frame stands for none. -/
def decodeFrame {α : Type} [Compression] (format : BinaryFormat α)
    (frame : Bytes) : Except RecordError (Option α) :=
  if frame.isEmpty then .ok none
  else do
    let payload ← RecordCodec.decode frame
    match format.decode payload with
    | .ok record => .ok (some record)
    | .error cause => .error (.binary cause)

def load {α : Type} [Compression] (records : RecordStore)
    (format : BinaryFormat α) (key : EntityKey) :
    RecordAction (Option α) := do
  let frame ← RecordAction.ofLayout (records.blobFor key).get
  ExceptT.mk (.done (decodeFrame format frame))

def delete (records : RecordStore) (key : EntityKey) : RecordAction Unit :=
  RecordAction.ofLayout (records.blobFor key).delete

def describe (records : RecordStore) : String :=
  "RecordStore \x7b namespace: " ++ records.space.describe ++ ", algorithm: "
    ++ records.hasher.name ++ ", codec: " ++ records.codec.describe ++ " \x7d"

end RecordStore

end SlotStorage
