import SlotStorage.Entity.Store
import SlotStorage.Proofs.Orderly

/-!
# Orderly operations on entities

Records, the registry and the expiry index each lie in one namespace.  An
entity store uses two: records and expiry sets lie in the one and the registry
in the other.  A failure of a call is passed on as the failure of a layout.
-/

namespace SlotStorage

variable {spaces : Set Namespace}

namespace RecordAction

/-- All calls are for cells of the namespaces, and the first one that fails
ends the operation with its failure. -/
abbrev Orderly {α : Type} (spaces : Set Namespace) (action : RecordAction α) :
    Prop :=
  Action.Orderly (fun cause => .layout (.store cause)) spaces action

theorem orderly_ofLayout {α : Type} {action : Layout α}
    (orderly : action.Orderly spaces) : (ofLayout action).Orderly spaces :=
  Program.Orderly.bind orderly (fun _ => rfl) fun _ _ => ⟨trivial, trivial⟩

end RecordAction

namespace RecordStore

variable {α : Type} {records : RecordStore}
  (inside : records.space ∈ spaces)

include inside

theorem orderly_store [Compression] (format : BinaryFormat α)
    (key : EntityKey) (record : α) :
    (records.store format key record).Orderly spaces :=
  RecordAction.orderly_ofLayout (Blob.orderly_set inside _)

theorem orderly_load [Compression] (format : BinaryFormat α)
    (key : EntityKey) : (records.load format key).Orderly spaces := by
  apply (RecordAction.orderly_ofLayout (Blob.orderly_get inside)).bind
  exact fun _ => ⟨trivial, trivial⟩

theorem orderly_delete (key : EntityKey) :
    (records.delete key).Orderly spaces :=
  RecordAction.orderly_ofLayout (Blob.orderly_delete inside)

end RecordStore

namespace Registry

variable {registry : Registry} (inside : registry.keys.Inside spaces)

include inside

theorem orderly_register (key : EntityKey) :
    (registry.register key).Orderly spaces :=
  EnumerableSet.orderly_add inside key.word

theorem orderly_unregister (key : EntityKey) :
    (registry.unregister key).Orderly spaces :=
  EnumerableSet.orderly_remove inside key.word

theorem orderly_contains (key : EntityKey) :
    (registry.contains key).Orderly spaces :=
  EnumerableSet.orderly_contains inside key.word

theorem orderly_size : registry.size.Orderly spaces :=
  EnumerableSet.orderly_size inside

theorem orderly_isEmpty : registry.isEmpty.Orderly spaces :=
  EnumerableSet.orderly_isEmpty inside

theorem orderly_entities : registry.entities.Orderly spaces :=
  (EnumerableSet.orderly_toList inside).bind fun _ => .pure _

end Registry

namespace ExpiryIndex

variable {index : ExpiryIndex} (inside : index.space ∈ spaces)

include inside

theorem orderly_schedule (block : UInt64) (key : EntityKey) :
    (index.schedule block key).Orderly spaces :=
  EnumerableSet.orderly_add (EnumerableSet.inside_ofKey inside _ _) key.word

theorem orderly_unschedule (block : UInt64) (key : EntityKey) :
    (index.unschedule block key).Orderly spaces :=
  EnumerableSet.orderly_remove (EnumerableSet.inside_ofKey inside _ _)
    key.word

theorem orderly_isScheduled (block : UInt64) (key : EntityKey) :
    (index.isScheduled block key).Orderly spaces :=
  EnumerableSet.orderly_contains (EnumerableSet.inside_ofKey inside _ _)
    key.word

theorem orderly_dueAt (block : UInt64) :
    (index.dueAt block).Orderly spaces :=
  (EnumerableSet.orderly_toList
    (EnumerableSet.inside_ofKey inside _ _)).bind fun _ => .pure _

theorem orderly_drain (block : UInt64) :
    (index.drain block).Orderly spaces := by
  apply (orderly_dueAt inside block).bind
  intro due
  exact (EnumerableSet.orderly_clear
    (EnumerableSet.inside_ofKey inside _ _)).bind fun _ => .pure _

end ExpiryIndex

namespace EntityStore

/-- All parts of the entity store lie in the namespaces. -/
structure Inside (entities : EntityStore) (spaces : Set Namespace) : Prop where
  records : entities.records.space ∈ spaces
  registry : entities.registry.keys.Inside spaces
  expiry : entities.expiry.space ∈ spaces

theorem inside_build {storage registry : Namespace}
    (storageInside : storage ∈ spaces) (registryInside : registry ∈ spaces)
    (hasher : Hasher) (codec : RecordCodec) :
    (build hasher storage registry codec).Inside spaces :=
  ⟨storageInside, EnumerableSet.inside_ofKey registryInside _ _,
    storageInside⟩

variable {entities : EntityStore} (inside : entities.Inside spaces)

include inside

theorem orderly_contains (key : EntityKey) :
    (entities.contains key).Orderly spaces :=
  RecordAction.orderly_ofLayout
    (Registry.orderly_contains inside.registry key)

theorem orderly_size : entities.size.Orderly spaces :=
  RecordAction.orderly_ofLayout (Registry.orderly_size inside.registry)

theorem orderly_isEmpty : entities.isEmpty.Orderly spaces :=
  RecordAction.orderly_ofLayout (Registry.orderly_isEmpty inside.registry)

theorem orderly_keys : entities.keys.Orderly spaces :=
  RecordAction.orderly_ofLayout (Registry.orderly_entities inside.registry)

theorem orderly_forget (keys : List EntityKey) :
    (entities.forget keys).Orderly spaces := by
  induction keys with
  | nil => exact .pure _
  | cons key keys induction =>
      apply (RecordStore.orderly_delete inside.records key).bind
      intro _
      apply (RecordAction.orderly_ofLayout
        (Registry.orderly_unregister inside.registry key)).bind
      exact fun _ => induction

theorem orderly_expire (block : UInt64) :
    (entities.expire block).Orderly spaces := by
  apply (RecordAction.orderly_ofLayout
    (ExpiryIndex.orderly_drain inside.expiry block)).bind
  intro due
  exact (orderly_forget inside due).bind fun _ => .pure _

section Records

variable [Compression]

theorem orderly_get (key : EntityKey) :
    (entities.get key).Orderly spaces :=
  RecordStore.orderly_load inside.records _ key

theorem orderly_create (key : EntityKey) (metadata : Metadata) :
    (entities.create key metadata).Orderly spaces := by
  apply (orderly_contains inside key).bind
  intro present
  split
  · exact .throw _
  · apply (RecordStore.orderly_store inside.records _ key metadata).bind
    intro _
    apply (RecordAction.orderly_ofLayout
      (Registry.orderly_register inside.registry key)).bind
    intro _
    exact (RecordAction.orderly_ofLayout
      (ExpiryIndex.orderly_schedule inside.expiry _ key)).bind fun _ =>
        .pure _

theorem orderly_update (key : EntityKey) (metadata : Metadata) :
    (entities.update key metadata).Orderly spaces := by
  have stored : (entities.records.store BinaryFormat.metadata key
      metadata).Orderly spaces :=
    RecordStore.orderly_store inside.records _ key metadata
  apply (orderly_get inside key).bind
  intro found
  cases found with
  | none => exact .throw _
  | some current =>
      dsimp only
      split
      · apply (RecordAction.orderly_ofLayout
          (ExpiryIndex.orderly_unschedule inside.expiry _ key)).bind
        intro _
        apply (RecordAction.orderly_ofLayout
          (ExpiryIndex.orderly_schedule inside.expiry _ key)).bind
        exact fun _ => stored
      · exact stored

theorem orderly_delete (key : EntityKey) :
    (entities.delete key).Orderly spaces := by
  apply (orderly_get inside key).bind
  intro found
  cases found with
  | none => exact .pure _
  | some current =>
      apply (RecordAction.orderly_ofLayout
        (ExpiryIndex.orderly_unschedule inside.expiry _ key)).bind
      intro _
      apply (RecordStore.orderly_delete inside.records key).bind
      intro _
      exact (RecordAction.orderly_ofLayout
        (Registry.orderly_unregister inside.registry key)).bind fun _ =>
          .pure _

end Records

end EntityStore

end SlotStorage
