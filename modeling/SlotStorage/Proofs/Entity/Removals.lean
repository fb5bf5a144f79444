import SlotStorage.Proofs.Entity.Operations

/-!
# Removals on a store that may fail

A removal takes an entity out of its expiry set, deletes its record and takes
it out of the registry.  Wherever it is cut off, one part of the storage is in
between, and the others are as the finished steps have left them.
-/

namespace SlotStorage

namespace EntityStore

variable {site : Site} {tidy : Prop} {scope : Scope} {contents : Contents}
  {key : EntityKey} {causes : StoreError → Prop} {stays : Contents → Prop}

namespace Site

/-! ## Sets in between -/

/-- A set that a key is leaving. -/
def Leaves (site : Site) (tidy : Prop) (scope : Scope) (name : SetName)
    (keys : Set EntityKey) (key : EntityKey) (contents : Contents) : Prop :=
  ∃ list, Spells scope list keys ∧ (site.set name).Leaving tidy scope.words
    scope.keys.card list key.word contents

/-- A set that is being cleared. -/
def Clears (site : Site) (tidy : Prop) (scope : Scope) (name : SetName)
    (keys : Set EntityKey) (contents : Contents) : Prop :=
  ∃ list, Spells scope list keys ∧ (site.set name).Clearing tidy scope.words
    scope.keys.card list contents

/-- A set that lists the keys, though some may have lost their positions. -/
def Fades (site : Site) (tidy : Prop) (scope : Scope) (name : SetName)
    (keys : Set EntityKey) (contents : Contents) : Prop :=
  ∃ list, Spells scope list keys ∧ (site.set name).Forgotten tidy scope.words
    scope.keys.card list 0 contents

section Sets

variable {name : SetName} {keys : Set EntityKey}

theorem Lists.leaves (lists : site.Lists tidy scope name keys contents)
    (key : EntityKey) : site.Leaves tidy scope name keys key contents := by
  obtain ⟨list, carries, listed⟩ := lists
  exact ⟨list, ⟨carries.nodup, carries.known, listed⟩, .there carries⟩

theorem Lists.fades (lists : site.Lists tidy scope name keys contents) :
    site.Fades tidy scope name keys contents := by
  obtain ⟨list, carries, listed⟩ := lists
  exact ⟨list, ⟨carries.nodup, carries.known, listed⟩, carries.forgotten⟩

theorem Fades.clears (fades : site.Fades tidy scope name keys contents) :
    site.Clears tidy scope name keys contents := by
  obtain ⟨list, spells, forgotten⟩ := fades
  exact ⟨list, spells, forgotten.clearing⟩

variable (spread : site.Spread scope) (within : name.Within scope)

include spread within

theorem Lists.safe_remove
    (lists : site.Lists tidy scope name keys contents)
    (known : key ∈ scope.keys)
    (kept : ∀ between,
      contents.SameOff (site.area scope (.set name)) between →
      site.Leaves tidy scope name keys key between → stays between) :
    Layout.Safe causes stays ((site.set name).remove key.word) contents
      (fun _ after => contents.SameOff (site.area scope (.set name)) after ∧
        site.Lists tidy scope name (keys \ {key}) after) := by
  obtain ⟨list, carries, listed⟩ := lists
  have spells : Spells scope list keys :=
    ⟨carries.nodup, carries.known, listed⟩
  apply (carries.safe_remove (spread.separate within)
    (Scope.mem_words.mpr known) fun between same leaving =>
      kept between same ⟨list, spells, leaving⟩).mono
  rintro _ after _ ⟨_, same, removed⟩
  exact ⟨same, _, removed, (spells.removed key).members⟩

/-- A set that a key is leaving still has it, or has only lost its position
and is as long as before, or has lost the key. -/
theorem Leaves.observed
    (leaves : site.Leaves tidy scope name keys key contents) :
    site.Lists tidy scope name keys contents ∨
    (((site.set name).contains key.word).Runs contents false contents ∧
      (site.set name).size.Runs contents keys.ncard contents ∧
      ∃ list, (site.set name).toList.Runs contents list contents ∧
        list.length = keys.ncard) ∨
    site.Lists False scope name (keys \ {key}) contents := by
  obtain ⟨list, spells, leaving⟩ := leaves
  have separate := spread.separate within
  cases leaving with
  | there carries => exact .inl ⟨list, carries, spells.members⟩
  | torn other length shown position =>
      have bounded : other.length ≤ scope.keys.card :=
        length ▸ spells.bounded
      have sized := (shown.reads_size separate.fits bounded trivial).runs
      have listed := (shown.reads_toList separate.fits bounded trivial).runs
      have read := Layout.runs_read ((site.set name).positionCell key.word)
        contents
      rw [position] at read
      rw [← spells.ncard] at length
      rw [length] at sized
      exact .inr (.inl ⟨read.bind (.pure _ _), sized, other, listed, length⟩)
  | gone carries =>
      exact .inr (.inr ⟨_, carries, (spells.removed key).members⟩)

theorem Leaves.counted_or_gone
    (leaves : site.Leaves tidy scope name keys key contents) :
    (site.set name).size.Runs contents keys.ncard contents ∨
      site.Lists False scope name (keys \ {key}) contents := by
  rcases leaves.observed spread within with there | ⟨_, counted, _⟩ | gone
  · obtain ⟨_, _, counted, _⟩ := there.members_run spread within
    exact .inl counted
  · exact .inl counted
  · exact .inr gone

/-- As long as all keys are listed, the clearing may be taken up again. -/
theorem Clears.fades (clears : site.Clears tidy scope name keys contents)
    (all : ∀ found, (site.set name).toList.Runs contents found contents →
      ∀ key ∈ keys, key.word ∈ found) :
    site.Fades tidy scope name keys contents := by
  obtain ⟨list, spells, clearing⟩ := clears
  have separate := spread.separate within
  have members : ∀ found,
      (site.set name).toList.Runs contents found contents →
        ∀ value ∈ list, value ∈ found :=
    fun found runs value member =>
      all found runs ⟨value⟩ ((spells.members ⟨value⟩).mp member)
  refine ⟨list, spells, ?_⟩
  cases clearing with
  | blanking count inside array absent =>
      have listed := (array.shown.reads_toList separate.fits array.bounded
        trivial).runs
      rw [DynamicArray.blanked_eq spells.nodup inside (members _ listed)]
        at array
      refine ⟨array, ?_⟩
      intro other otherKnown none
      apply absent other otherKnown
      exact MemberList.placeOf_eq_zero_iff.mp (Nat.le_zero.mp none)
  | cleared carries =>
      have listed := carries.runs_toList separate
      have none : list = [] := by
        apply List.eq_nil_iff_forall_not_mem.mpr
        exact fun value member =>
          List.not_mem_nil (members _ listed value member)
      rw [none]
      exact carries.forgotten

end Sets

/-! ## Forgetting one key -/

section Forgetting

variable [Compression] {ledger : Ledger}

/-- An entity that is no longer due is being forgotten. -/
inductive Forgetting (site : Site) (tidy : Prop) (scope : Scope)
    (ledger : Ledger) (key : EntityKey) (contents : Contents) : Prop where
  | erasing
    (keeps : site.KeepsBut tidy scope (.record key) ledger contents)
    (tracked : (site.blob key).Tracked scope.dataCells contents)
  | unregistering
    (keeps : site.KeepsBut tidy scope (.set .registry)
      (ledger.setRecord key none) contents)
    (leaves : site.Leaves tidy scope .registry (ledger.members .registry) key
      contents)

theorem Keeps.tracked (keeps : site.Keeps tidy scope ledger contents)
    (spread : site.Spread scope) (known : key ∈ scope.keys) :
    (site.blob key).Tracked scope.dataCells contents :=
  Blob.Keeps.tracked (keeps.tells (.record key) known)
    (spread.records key known _ (Nat.lt_succ_self _))

theorem safe_get (keeps : site.Keeps tidy scope ledger contents)
    (spread : site.Spread scope) (codec : RecordCodec)
    (known : key ∈ scope.keys) (kept : stays contents) :
    RecordAction.Safe causes stays ((site.store codec).get key) contents
      (fun answer after => answer = ledger.record key ∧ after = contents) :=
  RecordStore.safe_load (blob_keeps keeps known codec)
    (spread.records key known) kept

/-- The record may be damaged, as long as its head accounts for its cells. -/
theorem KeepsBut.safe_forget
    (keeps : site.KeepsBut tidy scope (.record key) ledger contents)
    (tracked : (site.blob key).Tracked scope.dataCells contents)
    (spread : site.Spread scope) (codec : RecordCodec)
    (known : key ∈ scope.keys)
    (kept : ∀ between, site.Forgetting tidy scope ledger key between →
      stays between)
    {α : Type} {next : RecordAction α} {goal : α → Contents → Prop}
    (goes : ∀ after, stays after →
      site.Keeps tidy scope (ledger.forget key) after →
      RecordAction.Safe causes stays next after goal) :
    RecordAction.Safe causes stays (do
        (site.store codec).records.delete key
        let _ ← RecordAction.ofLayout
          ((site.store codec).registry.unregister key)
        next) contents goal := by
  have registry : SetName.registry.Within scope := trivial
  have reaches : (site.blob key).key.Reaches scope.dataCells :=
    spread.records key known _ (Nat.lt_succ_self _)
  obtain ⟨head, tracks⟩ := tracked
  apply (RecordAction.safe_ofLayout (tracks.safe_delete reaches
    fun between same tracked => kept between
      (.erasing (keeps.change spread known same) tracked))).bind
  rintro _ deleted _ ⟨_, same, blank⟩
  have keepsDeleted := (keeps.change spread known same).setRecord
    (blank.keeps BinaryFormat.metadata)
  have lists := keepsDeleted.tells (.set .registry) registry
  apply (RecordAction.safe_ofLayout (lists.safe_remove spread registry known
    fun between same leaves => kept between
      (.unregistering (keepsDeleted.change spread registry.part same)
        leaves))).bind
  rintro _ after keptAfter ⟨same, removed⟩
  exact goes after keptAfter
    ((keepsDeleted.change spread registry.part same).setMembers removed)

end Forgetting

end Site

/-! ## Deleting -/

section Operations

variable [Compression] {entities : Entities} {current : Metadata}
  {block : UInt64}

/-- An entity that is being deleted leaves its expiry set and is forgotten. -/
inductive Deleting (site : Site) (tidy : Prop) (scope : Scope)
    (entities : Entities) (key : EntityKey) (current : Metadata)
    (contents : Contents) : Prop where
  | unscheduling
    (keeps : site.KeepsBut tidy scope (.set (.due current.expiresAt))
      entities.ledger contents)
    (leaves : site.Leaves tidy scope (.due current.expiresAt)
      (entities.dueAt current.expiresAt) key contents)
  | forgetting
    (forgetting : site.Forgetting tidy scope
      (entities.unscheduled key current) key contents)

theorem safe_delete (keeps : site.Keeps tidy scope entities.ledger contents)
    (spread : site.Spread scope) (codec : RecordCodec)
    (known : key ∈ scope.keys) (present : entities key = some current)
    (currentKnown : current.expiresAt ∈ scope.blocks)
    (kept : ∀ between,
      Deleting site tidy scope entities key current between →
        stays between) :
    RecordAction.Safe causes stays ((site.store codec).delete key) contents
      (fun answer after => answer = true ∧ site.Keeps tidy scope
        (Entities.ledger (Function.update entities key none)) after) := by
  have due : (SetName.due current.expiresAt).Within scope := currentKnown
  have lists := keeps.tells (.set (.due current.expiresAt)) due
  have start := kept contents (.unscheduling (keeps.but _) (lists.leaves key))
  have loaded : RecordAction.Safe causes stays ((site.store codec).get key)
      contents (fun answer after => answer = entities key ∧ after = contents) :=
    Site.safe_get keeps spread codec known start
  rw [present] at loaded
  unfold delete
  apply loaded.bind
  rintro _ _ _ ⟨rfl, rfl⟩
  apply (RecordAction.safe_ofLayout (lists.safe_remove spread due known
    fun between same leaves => kept between
      (.unscheduling (keeps.change spread due.part same) leaves))).bind
  rintro _ between _ ⟨same, removed⟩
  have unscheduled : site.Keeps tidy scope
      (entities.unscheduled key current) between :=
    (keeps.change spread due.part same).setMembers removed
  apply (unscheduled.but (.record key)).safe_forget
    (unscheduled.tracked spread known) spread codec known
    (fun between forgetting => kept between (.forgetting forgetting))
  intro after keptAfter forgotten
  apply RecordAction.Safe.pure keptAfter
  rw [← Entities.ledger_delete present]
  exact ⟨rfl, forgotten⟩

theorem delete_achieves
    (keeps : site.Keeps tidy scope entities.ledger contents)
    (spread : site.Spread scope) (codec : RecordCodec)
    (known : key ∈ scope.keys) (present : entities key = some current)
    (currentKnown : current.expiresAt ∈ scope.blocks) :
    ((site.store codec).delete key).Achieves Set.univ contents true
      (site.Keeps tidy scope (Entities.ledger
        (Function.update entities key none))) :=
  (safe_delete keeps spread codec known present currentKnown
    fun _ _ => trivial).achieves

/-! ## Expiring -/

/-- Entities that are being expired are taken from the expiry set and then
forgotten one after the other. -/
inductive Expiring (site : Site) (tidy : Prop) (scope : Scope)
    (entities : Entities) (block : UInt64) (contents : Contents) :
    Prop where
  | draining
    (keeps : site.KeepsBut tidy scope (.set (.due block)) entities.ledger
      contents)
    (clears : site.Clears tidy scope (.due block) (entities.dueAt block)
      contents)
  | forgetting (done : List EntityKey) (key : EntityKey)
    (left : List EntityKey) (nodup : (done ++ key :: left).Nodup)
    (members : ∀ other, other ∈ done ++ key :: left ↔
      other ∈ entities.dueAt block)
    (forgetting : site.Forgetting tidy scope
      (done.foldl Ledger.forget (entities.drained block)) key contents)

/-- Every listed key loses its record and its place in the registry. -/
theorem safe_forget (spread : site.Spread scope) (codec : RecordCodec)
    {ledger : Ledger} {done left : List EntityKey}
    (keeps : site.Keeps tidy scope (done.foldl Ledger.forget ledger) contents)
    (known : ∀ key ∈ left, key ∈ scope.keys) (start : stays contents)
    (kept : ∀ earlier key later, earlier ++ key :: later = done ++ left →
      ∀ between, site.Forgetting tidy scope
        (earlier.foldl Ledger.forget ledger) key between → stays between) :
    RecordAction.Safe causes stays ((site.store codec).forget left) contents
      (fun _ after => site.Keeps tidy scope
        ((done ++ left).foldl Ledger.forget ledger) after) := by
  induction left generalizing done contents with
  | nil =>
      rw [List.append_nil]
      exact .pure start keeps
  | cons key left induction =>
      have keyKnown := known key List.mem_cons_self
      unfold forget
      apply (keeps.but (.record key)).safe_forget
        (keeps.tracked spread keyKnown) spread codec keyKnown
        (kept done key left rfl)
      intro after keptAfter forgotten
      have split : done ++ key :: left = (done ++ [key]) ++ left := by simp
      rw [split] at kept ⊢
      apply induction _
        (fun other member => known other (List.mem_cons_of_mem key member))
        keptAfter kept
      rwa [List.foldl_append]

/-- The keys in the expiry set may have lost their positions. -/
theorem safe_expire
    (keeps : site.KeepsBut tidy scope (.set (.due block)) entities.ledger
      contents)
    (fades : site.Fades tidy scope (.due block) (entities.dueAt block)
      contents)
    (spread : site.Spread scope) (codec : RecordCodec)
    (within : entities.Within scope) (blockKnown : block ∈ scope.blocks)
    (kept : ∀ between, Expiring site tidy scope entities block between →
      stays between) :
    ∃ list : List EntityKey, list.Nodup ∧
      (∀ key, key ∈ list ↔ key ∈ entities.dueAt block) ∧
      RecordAction.Safe causes stays ((site.store codec).expire block)
        contents (fun answer after => answer = list ∧
          site.Keeps tidy scope (entities.expire block).ledger after) := by
  have due : (SetName.due block).Within scope := blockKnown
  have separate := spread.separate due
  have start := kept contents (.draining keeps fades.clears)
  obtain ⟨list, spells, forgotten⟩ := fades
  have members : ∀ key, key ∈ EntityKey.ofWords list ↔
      key ∈ entities.dueAt block := fun key => spells.mem_keys
  refine ⟨EntityKey.ofWords list, spells.nodup_keys, members, ?_⟩
  have known : ∀ key ∈ EntityKey.ofWords list, key ∈ scope.keys := by
    intro key member
    obtain ⟨record, found, _⟩ := (members key).mp member
    exact (within key record found).1
  have drains : Layout.Safe causes stays
      ((site.store codec).expiry.drain block) contents
      (fun answer after => answer = EntityKey.ofWords list ∧
        site.Keeps tidy scope (entities.drained block) after) := by
    unfold ExpiryIndex.drain ExpiryIndex.dueAt
    apply Layout.Reads.bind
    · apply (forgotten.array.shown.reads_toList separate.fits
        forgotten.array.bounded start).bind
      exact Layout.Reads.pure start
    apply (forgotten.safe_clear separate spells.known
      fun between same clearing => kept between
        (.draining (keeps.change spread due.part same)
          ⟨list, spells, clearing⟩)).bind
    rintro _ drained keptDrained ⟨_, same, cleared⟩
    refine Layout.Safe.pure keptDrained ⟨rfl, ?_⟩
    apply (keeps.change spread due.part same).setMembers
    exact ⟨[], cleared, (Spells.empty scope).members⟩
  rw [← Entities.ledger_expire members]
  unfold expire
  apply (RecordAction.safe_ofLayout drains).bind
  rintro _ drained keptDrained ⟨rfl, keepsDrained⟩
  have forgets : RecordAction.Safe causes stays
      ((site.store codec).forget (EntityKey.ofWords list)) drained
      (fun _ after => site.Keeps tidy scope
        (([] ++ EntityKey.ofWords list).foldl Ledger.forget
          (entities.drained block)) after) := by
    apply safe_forget spread codec keepsDrained known keptDrained
    intro earlier key later split between forgetting
    rw [List.nil_append] at split
    rw [← split] at members
    exact kept between (.forgetting earlier key later
      (split ▸ spells.nodup_keys) members forgetting)
  apply forgets.bind
  intro _ after keptAfter forgotten
  exact .pure keptAfter ⟨rfl, forgotten⟩

theorem expire_achieves
    (keeps : site.Keeps tidy scope entities.ledger contents)
    (spread : site.Spread scope) (codec : RecordCodec)
    (within : entities.Within scope) (blockKnown : block ∈ scope.blocks) :
    ∃ list, ((site.store codec).expire block).Achieves Set.univ contents list
        (site.Keeps tidy scope (entities.expire block).ledger) ∧
      list.Nodup ∧ ∀ key, key ∈ list ↔ key ∈ entities.dueAt block := by
  have due : (SetName.due block).Within scope := blockKnown
  obtain ⟨list, nodup, members, safe⟩ := safe_expire (keeps.but _)
    (keeps.tells (.set (.due block)) due).fades spread codec within blockKnown
    (fun _ _ => trivial)
  exact ⟨list, safe.achieves, nodup, members⟩

end Operations

end EntityStore

end SlotStorage
