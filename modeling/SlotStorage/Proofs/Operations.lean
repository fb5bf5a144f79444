import SlotStorage.Proofs.Entity.Calls
import SlotStorage.Proofs.Entity.Orderly
import SlotStorage.Proofs.Layout.ArrayCalls
import SlotStorage.Proofs.Layout.SetCalls

/-!
# Operations of every kind

An operation is a call on one of the structures, together with the place that
it is bound to.  Each of them is orderly: it keeps to its namespaces, and it
ends with the failure of the first store call that fails.
-/

namespace SlotStorage

/-! ## Calls of each kind -/

/-- A plain call on a cell. -/
inductive Cell.Call where
  | get
  | set (value : Word)
  | clear
  | isEmpty
  deriving DecidableEq

namespace Cell.Call

def Answer : Cell.Call → Type
  | .get | .set _ | .clear => Word
  | .isEmpty => Bool

def perform (cell : Cell) : (call : Cell.Call) → Action StoreError call.Answer
  | .get => Action.read cell
  | .set value => Action.write cell value
  | .clear => Action.clear cell
  | .isEmpty => Action.isEmptyCell cell

end Cell.Call

/-- A call on a salted index. -/
inductive SaltedIndex.Call where
  | get (key : Word)
  | set (key value : Word)
  deriving DecidableEq

def SaltedIndex.Call.perform (index : SaltedIndex) :
    SaltedIndex.Call → Layout Word
  | .get key => index.get key
  | .set key value => index.set key value

/-- A call on a record store, for records of any type. -/
inductive RecordStore.Request : Type 1 where
  | store {α : Type} (format : BinaryFormat α) (key : EntityKey) (record : α)
  | load {α : Type} (format : BinaryFormat α) (key : EntityKey)
  | delete (key : EntityKey)

namespace RecordStore.Request

def Answer : RecordStore.Request → Type
  | .store _ _ _ | .delete _ => Unit
  | @load α _ _ => Option α

def perform [Compression] (records : RecordStore) :
    (request : RecordStore.Request) → RecordAction request.Answer
  | .store format key record => records.store format key record
  | .load format key => records.load format key
  | .delete key => records.delete key

end RecordStore.Request

/-- A call on a registry. -/
inductive Registry.Call where
  | register (key : EntityKey)
  | unregister (key : EntityKey)
  | contains (key : EntityKey)
  | size
  | isEmpty
  | entities
  deriving DecidableEq

namespace Registry.Call

def Answer : Registry.Call → Type
  | .register _ | .unregister _ | .contains _ | .isEmpty => Bool
  | .size => Nat
  | .entities => List EntityKey

def perform (registry : Registry) :
    (call : Registry.Call) → Layout call.Answer
  | .register key => registry.register key
  | .unregister key => registry.unregister key
  | .contains key => registry.contains key
  | .size => registry.size
  | .isEmpty => registry.isEmpty
  | .entities => registry.entities

end Registry.Call

/-- A call on an expiry index. -/
inductive ExpiryIndex.Call where
  | schedule (block : UInt64) (key : EntityKey)
  | unschedule (block : UInt64) (key : EntityKey)
  | isScheduled (block : UInt64) (key : EntityKey)
  | dueAt (block : UInt64)
  | drain (block : UInt64)
  deriving DecidableEq

namespace ExpiryIndex.Call

def Answer : ExpiryIndex.Call → Type
  | .schedule _ _ | .unschedule _ _ | .isScheduled _ _ => Bool
  | .dueAt _ | .drain _ => List EntityKey

def perform (index : ExpiryIndex) :
    (call : ExpiryIndex.Call) → Layout call.Answer
  | .schedule block key => index.schedule block key
  | .unschedule block key => index.unschedule block key
  | .isScheduled block key => index.isScheduled block key
  | .dueAt block => index.dueAt block
  | .drain block => index.drain block

end ExpiryIndex.Call

/-- A question to an entity store. -/
inductive EntityStore.Query where
  | get (key : EntityKey)
  | contains (key : EntityKey)
  | size
  | isEmpty
  | keys
  deriving DecidableEq

namespace EntityStore.Query

def Answer : EntityStore.Query → Type
  | .get _ => Option Metadata
  | .contains _ | .isEmpty => Bool
  | .size => Nat
  | .keys => List EntityKey

def perform [Compression] (entities : EntityStore) :
    (query : EntityStore.Query) → RecordAction query.Answer
  | .get key => entities.get key
  | .contains key => entities.contains key
  | .size => entities.size
  | .isEmpty => entities.isEmpty
  | .keys => entities.keys

end EntityStore.Query

/-! ## Each call is orderly in its namespaces -/

section Orderly

variable {spaces : Set Namespace}

theorem Cell.Call.orderly_perform {cell : Cell}
    (inside : cell.space ∈ spaces) (call : Cell.Call) :
    Action.Orderly id spaces (call.perform cell) := by
  have reads : Action.Orderly id spaces (Action.read cell) :=
    ⟨⟨inside, fun _ => trivial⟩, fun _ => rfl, fun _ => trivial⟩
  have writes : ∀ value, Action.Orderly id spaces (Action.write cell value) :=
    fun value => ⟨⟨inside, fun _ => trivial⟩, fun _ => rfl, fun _ => trivial⟩
  cases call with
  | get => exact reads
  | set value => exact writes value
  | clear => exact writes 0
  | isEmpty => exact reads.bind fun _ => .pure _

theorem DynamicArray.Call.orderly_perform {array : DynamicArray}
    (inside : array.space ∈ spaces) (call : DynamicArray.Call) :
    (call.perform array).Orderly spaces := by
  cases call with
  | append value => exact (orderly_append inside value).bind fun _ => .pure _
  | set index value =>
      exact (orderly_set inside index value).bind fun _ => .pure _
  | removeLast => exact (orderly_removeLast inside).bind fun _ => .pure _
  | clear => exact (orderly_clear inside).bind fun _ => .pure _
  | get index => exact (orderly_get inside index).bind fun _ => .pure _
  | last => exact (orderly_last inside).bind fun _ => .pure _
  | size => exact (orderly_size inside).bind fun _ => .pure _
  | isEmpty => exact (orderly_isEmpty inside).bind fun _ => .pure _
  | toList => exact (orderly_toList inside).bind fun _ => .pure _

theorem SaltedIndex.Call.orderly_perform {index : SaltedIndex}
    (inside : index.space ∈ spaces) (call : SaltedIndex.Call) :
    (call.perform index).Orderly spaces := by
  cases call with
  | get key => exact orderly_get inside key
  | set key value => exact orderly_set inside key value

theorem EnumerableSet.Call.orderly_perform {set : EnumerableSet}
    (inside : set.Inside spaces) (call : EnumerableSet.Call) :
    (call.perform set).Orderly spaces := by
  cases call with
  | add value => exact (orderly_add inside value).bind fun _ => .pure _
  | remove value => exact (orderly_remove inside value).bind fun _ => .pure _
  | clear => exact (orderly_clear inside).bind fun _ => .pure _
  | contains value =>
      exact (orderly_contains inside value).bind fun _ => .pure _
  | size => exact (orderly_size inside).bind fun _ => .pure _
  | isEmpty => exact (orderly_isEmpty inside).bind fun _ => .pure _
  | members => exact (orderly_toList inside).bind fun _ => .pure _

theorem Blob.Call.orderly_perform {blob : Blob}
    (inside : blob.space ∈ spaces) (call : Blob.Call) :
    (call.perform blob).Orderly spaces := by
  cases call with
  | set bytes => exact (orderly_set inside bytes).bind fun _ => .pure _
  | delete => exact (orderly_delete inside).bind fun _ => .pure _
  | get => exact (orderly_get inside).bind fun _ => .pure _

theorem RecordStore.Request.orderly_perform [Compression]
    {records : RecordStore} (inside : records.space ∈ spaces)
    (request : RecordStore.Request) :
    (request.perform records).Orderly spaces := by
  cases request with
  | store format key record => exact orderly_store inside format key record
  | load format key => exact orderly_load inside format key
  | delete key => exact orderly_delete inside key

theorem Registry.Call.orderly_perform {registry : Registry}
    (inside : registry.keys.Inside spaces) (call : Registry.Call) :
    (call.perform registry).Orderly spaces := by
  cases call with
  | register key => exact orderly_register inside key
  | unregister key => exact orderly_unregister inside key
  | contains key => exact orderly_contains inside key
  | size => exact orderly_size inside
  | isEmpty => exact orderly_isEmpty inside
  | entities => exact orderly_entities inside

theorem ExpiryIndex.Call.orderly_perform {index : ExpiryIndex}
    (inside : index.space ∈ spaces) (call : ExpiryIndex.Call) :
    (call.perform index).Orderly spaces := by
  cases call with
  | schedule block key => exact orderly_schedule inside block key
  | unschedule block key => exact orderly_unschedule inside block key
  | isScheduled block key => exact orderly_isScheduled inside block key
  | dueAt block => exact orderly_dueAt inside block
  | drain block => exact orderly_drain inside block

theorem EntityStore.Query.orderly_perform [Compression]
    {entities : EntityStore} (inside : entities.Inside spaces)
    (query : EntityStore.Query) :
    (query.perform entities).Orderly spaces := by
  cases query with
  | get key => exact orderly_get inside key
  | contains key => exact orderly_contains inside key
  | size => exact orderly_size inside
  | isEmpty => exact orderly_isEmpty inside
  | keys => exact orderly_keys inside

theorem EntityStore.Call.orderly_perform [Compression]
    {site : EntityStore.Site} (storage : site.storage ∈ spaces)
    (registry : site.registry ∈ spaces) (call : EntityStore.Call) :
    (call.perform site).Orderly spaces := by
  have inside (codec : RecordCodec) : (site.store codec).Inside spaces :=
    inside_build storage registry site.hasher codec
  cases call with
  | create codec key record =>
      exact (orderly_create (inside codec) key record).bind fun _ => .pure _
  | update codec key record =>
      exact (orderly_update (inside codec) key record).bind fun _ => .pure _
  | delete codec key =>
      exact (orderly_delete (inside codec) key).bind fun _ => .pure _
  | expire codec block =>
      exact (orderly_expire (inside codec) block).bind fun _ => .pure _

end Orderly

/-! ## Sequences of operations -/

/-- An operation with the place that it is bound to.  A cursor is moved by the
one who holds it: the answer to a step tells where it is afterwards. -/
inductive Operation : Type 1 where
  | onCell (cell : Cell) (call : Cell.Call)
  | onArray (array : DynamicArray) (call : DynamicArray.Call)
  | step (cursor : Cursor)
  | onIndex (index : SaltedIndex) (call : SaltedIndex.Call)
  | onSet (space : Namespace) (hasher : Hasher) (setKey : Slot)
    (call : EnumerableSet.Call)
  | onBlob (blob : Blob) (call : Blob.Call)
  | onRecords (records : RecordStore) (request : RecordStore.Request)
  | onRegistry (space : Namespace) (hasher : Hasher) (call : Registry.Call)
  | onExpiry (index : ExpiryIndex) (call : ExpiryIndex.Call)
  | onEntities (site : EntityStore.Site) (call : EntityStore.Call)
  | ask (site : EntityStore.Site) (codec : RecordCodec)
    (query : EntityStore.Query)

namespace Operation

/-- The namespaces that the operation is bound to: one, or the two of an
entity store. -/
def spaces : Operation → List Namespace
  | .onCell cell _ => [cell.space]
  | .onArray array _ => [array.space]
  | .step cursor => [cursor.array.space]
  | .onIndex index _ => [index.space]
  | .onSet space _ _ _ => [space]
  | .onBlob blob _ => [blob.space]
  | .onRecords records _ => [records.space]
  | .onRegistry space _ _ => [space]
  | .onExpiry index _ => [index.space]
  | .onEntities site _ => [site.storage, site.registry]
  | .ask site _ _ => [site.storage, site.registry]

/-- What the operation answers, failures included. -/
def Answer : Operation → Type
  | .onCell _ call => Except StoreError call.Answer
  | .onArray _ _ => Except LayoutError DynamicArray.Answer
  | .step _ => Option (Except LayoutError Word) × Cursor
  | .onIndex _ _ => Except LayoutError Word
  | .onSet _ _ _ _ => Except LayoutError EnumerableSet.Answer
  | .onBlob _ _ => Except LayoutError Blob.Answer
  | .onRecords _ request => Except RecordError request.Answer
  | .onRegistry _ _ call => Except LayoutError call.Answer
  | .onExpiry _ call => Except LayoutError call.Answer
  | .onEntities _ _ => Except RecordError EntityStore.Answer
  | .ask _ _ query => Except RecordError query.Answer

/-- The answer that tells that a store call has failed. -/
def failure : (operation : Operation) → StoreError → operation.Answer
  | .onCell _ _, cause => .error cause
  | .onArray _ _, cause => .error (.store cause)
  | .step cursor, cause =>
    (some (.error (.store cause)), { cursor with failed := true })
  | .onIndex _ _, cause => .error (.store cause)
  | .onSet _ _ _ _, cause => .error (.store cause)
  | .onBlob _ _, cause => .error (.store cause)
  | .onRecords _ _, cause => .error (.layout (.store cause))
  | .onRegistry _ _ _, cause => .error (.store cause)
  | .onExpiry _ _, cause => .error (.store cause)
  | .onEntities _ _, cause => .error (.layout (.store cause))
  | .ask _ _ _, cause => .error (.layout (.store cause))

section Runs

variable [Compression]

def program : (operation : Operation) → Program operation.Answer
  | .onCell cell call => (call.perform cell).run
  | .onArray array call => (call.perform array).run
  | .step cursor => cursor.step
  | .onIndex index call => (call.perform index).run
  | .onSet space hasher setKey call =>
    (call.perform (EnumerableSet.ofKey hasher space setKey)).run
  | .onBlob blob call => (call.perform blob).run
  | .onRecords records request => (request.perform records).run
  | .onRegistry space hasher call =>
    (call.perform (Registry.ofSpace hasher space)).run
  | .onExpiry index call => (call.perform index).run
  | .onEntities site call => (call.perform site).run
  | .ask site codec query => (query.perform (site.store codec)).run

/-- Makes operations one after the other and keeps every answer with its
operation. -/
def run {σ : Type} (backend : Backend σ) :
    List Operation → σ → List (Σ operation : Operation, operation.Answer) × σ
  | [], state => ([], state)
  | operation :: operations, state =>
    let (answer, between) := operation.program.run backend state
    let (answers, after) := run backend operations between
    (⟨operation, answer⟩ :: answers, after)

/-- All calls of an operation are for cells of its namespaces, and the first
one that fails is the last. -/
theorem orderly (operation : Operation) :
    operation.program.Orderly {space | space ∈ operation.spaces}
      operation.failure fun _ => True := by
  have first {space : Namespace} {others : List Namespace} :
      space ∈ {other | other ∈ space :: others} := List.mem_cons_self
  have second {space other : Namespace} :
      other ∈ {third | third ∈ [space, other]} :=
    List.mem_cons_of_mem space List.mem_cons_self
  cases operation with
  | onCell cell call => exact Cell.Call.orderly_perform first call
  | onArray array call => exact DynamicArray.Call.orderly_perform first call
  | step cursor => exact (Cursor.orderly_step first).weaken
  | onIndex index call => exact SaltedIndex.Call.orderly_perform first call
  | onSet space hasher setKey call =>
      exact EnumerableSet.Call.orderly_perform
        (EnumerableSet.inside_ofKey first hasher setKey) call
  | onBlob blob call => exact Blob.Call.orderly_perform first call
  | onRecords records request =>
      exact RecordStore.Request.orderly_perform first request
  | onRegistry space hasher call =>
      exact Registry.Call.orderly_perform
        (EnumerableSet.inside_ofKey first hasher _) call
  | onExpiry index call => exact ExpiryIndex.Call.orderly_perform first call
  | onEntities site call =>
      exact EntityStore.Call.orderly_perform first second call
  | ask site codec query =>
      exact EntityStore.Query.orderly_perform
        (EntityStore.inside_build first second site.hasher codec) query

end Runs

end Operation

end SlotStorage
