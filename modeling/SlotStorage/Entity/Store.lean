import SlotStorage.Config.Basic
import SlotStorage.Entity.Expiry
import SlotStorage.Record.Store

/-!
# Entity stores

An entity has a record, stands in the registry, and stands in the expiry set of
its block.  The operations keep these three in step.
-/

namespace SlotStorage

/-- The places where entities are kept. -/
structure EntityStore where
  records : RecordStore
  registry : Registry
  expiry : ExpiryIndex

namespace EntityStore

/-- The entity store over a hash function, two namespaces and a codec. -/
def build (hasher : Hasher) (storage registry : Namespace)
    (codec : RecordCodec) : EntityStore where
  records := ⟨storage, hasher, codec⟩
  registry := Registry.ofSpace hasher registry
  expiry := ⟨storage, hasher⟩

def ofConfig (config : Config) : EntityStore :=
  build config.hash.hasher config.storage config.registry config.recordCodec

/-- The metadata of an entity, if there is such an entity. -/
def get [Compression] (entities : EntityStore) (key : EntityKey) :
    RecordAction (Option Metadata) :=
  entities.records.load BinaryFormat.metadata key

def contains (entities : EntityStore) (key : EntityKey) : RecordAction Bool :=
  RecordAction.ofLayout (entities.registry.contains key)

def size (entities : EntityStore) : RecordAction Nat :=
  RecordAction.ofLayout entities.registry.size

def isEmpty (entities : EntityStore) : RecordAction Bool :=
  RecordAction.ofLayout entities.registry.isEmpty

def keys (entities : EntityStore) : RecordAction (List EntityKey) :=
  RecordAction.ofLayout entities.registry.entities

/-- Creates an entity whose key is still free: its record, then its place in
the registry, then its place in the expiry set. -/
def create [Compression] (entities : EntityStore) (key : EntityKey)
    (metadata : Metadata) : RecordAction Unit := do
  if ← entities.contains key then
    throw (.entityExists key)
  else
    entities.records.store BinaryFormat.metadata key metadata
    let _ ← RecordAction.ofLayout (entities.registry.register key)
    let _ ← RecordAction.ofLayout
      (entities.expiry.schedule metadata.expiresAt key)

/-- Replaces the metadata of an entity.  If it expires at another block, it
changes sets before its record is replaced. -/
def update [Compression] (entities : EntityStore) (key : EntityKey)
    (metadata : Metadata) : RecordAction Unit := do
  match ← entities.get key with
  | none => throw (.entityNotFound key)
  | some current =>
    if current.expiresAt ≠ metadata.expiresAt then
      let _ ← RecordAction.ofLayout
        (entities.expiry.unschedule current.expiresAt key)
      let _ ← RecordAction.ofLayout
        (entities.expiry.schedule metadata.expiresAt key)
    entities.records.store BinaryFormat.metadata key metadata

/-- Removes an entity: from its expiry set, then its record, then from the
registry.  The answer says whether it was there. -/
def delete [Compression] (entities : EntityStore) (key : EntityKey) :
    RecordAction Bool := do
  match ← entities.get key with
  | none => return false
  | some current =>
    let _ ← RecordAction.ofLayout
      (entities.expiry.unschedule current.expiresAt key)
    entities.records.delete key
    let _ ← RecordAction.ofLayout (entities.registry.unregister key)
    return true

def forget (entities : EntityStore) : List EntityKey → RecordAction Unit
  | [] => pure ()
  | key :: keys => do
    entities.records.delete key
    let _ ← RecordAction.ofLayout (entities.registry.unregister key)
    entities.forget keys

/-- Removes all entities that expire at a block and gives back their keys. -/
def expire (entities : EntityStore) (block : UInt64) :
    RecordAction (List EntityKey) := do
  let due ← RecordAction.ofLayout (entities.expiry.drain block)
  entities.forget due
  return due

def describe (entities : EntityStore) : String :=
  "EntityStore \x7b records: " ++ entities.records.describe ++ ", registry: "
    ++ entities.registry.describe ++ ", .. \x7d"

end EntityStore

end SlotStorage
