import SlotStorage.Proofs.Entity.Entities

/-!
# Operations on entities

Each operation is followed step by step through the ledger and brings the
storage from one map of entities to the next.
-/

namespace SlotStorage

namespace EntityStore

variable [Compression] {site : Site} {tidy : Prop} {scope : Scope}
  {entities : Entities} {contents : Contents} {key : EntityKey}
  {record current : Metadata} {block : UInt64}

/-- The metadata can be written, and its frame fits in a blob. -/
structure Storable (site : Site) (scope : Scope) (codec : RecordCodec)
    (record : Metadata) : Prop where
  encodable : record.Encodable
  holdable : Blob.Holdable (scope.dataCells + 1)
    ((site.store codec).records.frameOf BinaryFormat.metadata record)

instance (site : Site) (scope : Scope) (codec : RecordCodec)
    (record : Metadata) : Decidable (Storable site scope codec record) :=
  decidable_of_iff
    (record.Encodable ∧ Blob.Holdable (scope.dataCells + 1)
      ((site.store codec).records.frameOf BinaryFormat.metadata record))
    ⟨fun both => ⟨both.1, both.2⟩, fun both => ⟨both.encodable, both.holdable⟩⟩

variable (keeps : site.Keeps tidy scope entities.ledger contents)
  (spread : site.Spread scope)

include keeps spread

theorem get_runs (codec : RecordCodec) (known : key ∈ scope.keys)
    {found : Option Metadata} (stored : entities key = found) :
    ((site.store codec).get key).Runs contents found contents :=
  stored ▸ Site.load_runs keeps spread known codec

/-! ## Creating -/

theorem create_fails (codec : RecordCodec) (known : key ∈ scope.keys)
    (present : (entities key).isSome) (record : Metadata) :
    ((site.store codec).create key record).Fails contents (.entityExists key)
      contents := by
  have registry : SetName.registry.Within scope := trivial
  obtain ⟨found, contained, answer⟩ :=
    (keeps.tells (.set .registry) registry).contains_runs spread registry known
  obtain rfl := answer.mpr present
  exact (RecordAction.runs_ofLayout contained).bind_fails rfl

theorem create_achieves (inverts : Compression.Inverts) {codec : RecordCodec}
    (known : key ∈ scope.keys) (blockKnown : record.expiresAt ∈ scope.blocks)
    (storable : Storable site scope codec record)
    (absent : entities key = none) :
    ((site.store codec).create key record).Achieves Set.univ contents ()
      (site.Keeps tidy scope (Entities.ledger
        (Function.update entities key (some record)))) := by
  have registry : SetName.registry.Within scope := trivial
  have due : (SetName.due record.expiresAt).Within scope := blockKnown
  obtain ⟨found, contained, answer⟩ :=
    (keeps.tells (.set .registry) registry).contains_runs spread registry known
  have missing : found = false := by
    rw [← Bool.not_eq_true, answer]
    change ¬ (entities key).isSome = true
    simp [absent]
  subst missing
  rw [← Entities.ledger_create absent record]
  unfold create
  apply (RecordAction.runs_ofLayout contained).bind_achieves
  apply (Site.storeRecord_achieves keeps spread known inverts codec
    storable.encodable storable.holdable).bind (Set.Subset.refl _)
  intro stored _ keepsStored
  obtain ⟨_, registers⟩ :=
    Site.add_achieves spread registry keepsStored known
  apply (RecordAction.achieves_ofLayout registers).bind (Set.Subset.refl _)
  intro registered _ keepsRegistered
  obtain ⟨_, schedules⟩ :=
    Site.add_achieves spread due keepsRegistered known
  apply (RecordAction.achieves_ofLayout schedules).bind (Set.Subset.refl _)
  intro scheduled _ keepsScheduled
  apply Action.Achieves.pure
  rwa [Ledger.setMembers_other _ (by simp)] at keepsScheduled

/-! ## Updating -/

theorem update_fails (codec : RecordCodec) (known : key ∈ scope.keys)
    (absent : entities key = none) (record : Metadata) :
    ((site.store codec).update key record).Fails contents
      (.entityNotFound key) contents := by
  have loaded := get_runs keeps spread codec known absent
  exact loaded.bind_fails rfl

theorem update_achieves (inverts : Compression.Inverts) {codec : RecordCodec}
    (known : key ∈ scope.keys) (blockKnown : record.expiresAt ∈ scope.blocks)
    (storable : Storable site scope codec record)
    (present : entities key = some current)
    (currentKnown : current.expiresAt ∈ scope.blocks) :
    ((site.store codec).update key record).Achieves Set.univ contents ()
      (site.Keeps tidy scope (Entities.ledger
        (Function.update entities key (some record)))) := by
  have due : (SetName.due record.expiresAt).Within scope := blockKnown
  have currentDue : (SetName.due current.expiresAt).Within scope :=
    currentKnown
  have loaded := get_runs keeps spread codec known present
  unfold update
  apply loaded.bind_achieves
  by_cases moves : current.expiresAt ≠ record.expiresAt
  · rw [← Entities.ledger_move present record]
    simp only [if_pos moves]
    obtain ⟨_, unschedules⟩ :=
      Site.remove_achieves spread currentDue keeps known
    apply (RecordAction.achieves_ofLayout unschedules).bind
      (Set.Subset.refl _)
    intro unscheduled _ keepsUnscheduled
    obtain ⟨_, schedules⟩ :=
      Site.add_achieves spread due keepsUnscheduled known
    apply (RecordAction.achieves_ofLayout schedules).bind (Set.Subset.refl _)
    intro scheduled _ keepsScheduled
    rw [Ledger.setMembers_other _ (by simpa using moves.symm)]
      at keepsScheduled
    exact Site.storeRecord_achieves keepsScheduled spread known inverts codec
      storable.encodable storable.holdable
  · rw [← Entities.ledger_replace present (not_not.mp moves)]
    simp only [if_neg moves]
    exact Site.storeRecord_achieves keeps spread known inverts codec
      storable.encodable storable.holdable

theorem delete_runs (codec : RecordCodec) (known : key ∈ scope.keys)
    (absent : entities key = none) :
    ((site.store codec).delete key).Runs contents false contents := by
  have loaded := get_runs keeps spread codec known absent
  exact loaded.bind (.pure _ _)

end EntityStore

end SlotStorage
