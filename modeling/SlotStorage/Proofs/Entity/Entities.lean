import SlotStorage.Proofs.Entity.Ledger

/-!
# Maps of entities

An entity store stands for a map from keys to metadata.  The sets of a ledger
follow from the map, and every operation on the map amounts to a few changes
of the ledger.
-/

namespace SlotStorage

namespace EntityStore

/-- The entities that there are, with their metadata. -/
abbrev Entities := EntityKey → Option Metadata

namespace Entities

/-- There is no entity. -/
def empty : Entities := fun _ => none

/-- The keys of all entities. -/
def live (entities : Entities) : Set EntityKey :=
  {key | (entities key).isSome}

/-- The keys of the entities that expire at a block. -/
def dueAt (entities : Entities) (block : UInt64) : Set EntityKey :=
  {key | ∃ record, entities key = some record ∧ record.expiresAt = block}

/-- The entities that do not expire at a block. -/
def expire (entities : Entities) (block : UInt64) : Entities :=
  fun key => (entities key).filter fun record => record.expiresAt ≠ block

/-- The ledger in which the sets agree with the records. -/
def ledger (entities : Entities) : Ledger where
  record := entities
  members
    | .registry => entities.live
    | .due block => entities.dueAt block

/-- The ledger once an entity has left the expiry set of its block. -/
def unscheduled (entities : Entities) (key : EntityKey)
    (current : Metadata) : Ledger :=
  entities.ledger.setMembers (.due current.expiresAt)
    (entities.dueAt current.expiresAt \ {key})

/-- The ledger once the expiry set of a block is empty. -/
def drained (entities : Entities) (block : UInt64) : Ledger :=
  entities.ledger.setMembers (.due block) ∅

/-- All entities have keys in use and expire at blocks in use. -/
def Within (scope : Scope) (entities : Entities) : Prop :=
  ∀ key record, entities key = some record →
    key ∈ scope.keys ∧ record.expiresAt ∈ scope.blocks

variable {scope : Scope} {entities : Entities} {key : EntityKey}
  {record : Metadata} {block : UInt64}

theorem ledger_empty :
    Entities.empty.ledger = ⟨fun _ => none, fun _ => ∅⟩ := by
  ext1
  · rfl
  · funext name
    cases name with
    | registry => simp [Entities.ledger, Entities.live, Entities.empty]
    | due block => simp [Entities.ledger, Entities.dueAt, Entities.empty]

theorem Within.update (within : entities.Within scope)
    (keyKnown : key ∈ scope.keys)
    (blockKnown : record.expiresAt ∈ scope.blocks) :
    Within scope (Function.update entities key (some record)) := by
  intro other found same
  by_cases here : other = key
  · subst other
    rw [Function.update_self] at same
    obtain rfl := Option.some.inj same
    exact ⟨keyKnown, blockKnown⟩
  · rw [Function.update_of_ne here] at same
    exact within other found same

theorem Within.delete (within : entities.Within scope) (key : EntityKey) :
    Within scope (Function.update entities key none) := by
  intro other found same
  by_cases here : other = key
  · subst other
    rw [Function.update_self] at same
    cases same
  · rw [Function.update_of_ne here] at same
    exact within other found same

theorem Within.expire (within : entities.Within scope) (block : UInt64) :
    Within scope (entities.expire block) :=
  fun other found same =>
    within other found (Option.filter_eq_some_iff.mp same).1

theorem Within.finite_live (within : entities.Within scope) :
    entities.live.Finite := by
  apply scope.keys.finite_toSet.subset
  intro key present
  obtain ⟨record, found⟩ := Option.isSome_iff_exists.mp present
  exact (within key record found).1

theorem live_update (entities : Entities) (key : EntityKey)
    (record : Metadata) :
    live (Function.update entities key (some record)) =
      insert key entities.live := by
  ext other
  by_cases here : other = key
  · simp [live, here]
  · simp [live, here]

theorem live_delete (entities : Entities) (key : EntityKey) :
    live (Function.update entities key none) = entities.live \ {key} := by
  ext other
  by_cases here : other = key
  · simp [live, here]
  · simp [live, here]

theorem dueAt_update (entities : Entities) (key : EntityKey)
    (record : Metadata) :
    dueAt (Function.update entities key (some record)) record.expiresAt =
      insert key (entities.dueAt record.expiresAt) := by
  ext other
  by_cases here : other = key
  · simp [dueAt, here]
  · simp [dueAt, here]

theorem dueAt_update_other (entities : Entities) (key : EntityKey)
    {record : Metadata} (elsewhere : record.expiresAt ≠ block) :
    dueAt (Function.update entities key (some record)) block =
      entities.dueAt block \ {key} := by
  ext other
  by_cases here : other = key
  · simp [dueAt, here, elsewhere]
  · simp [dueAt, here]

theorem dueAt_delete (entities : Entities) (key : EntityKey)
    (block : UInt64) :
    dueAt (Function.update entities key none) block =
      entities.dueAt block \ {key} := by
  ext other
  by_cases here : other = key
  · simp [dueAt, here]
  · simp [dueAt, here]

theorem not_mem_dueAt_of_none (absent : entities key = none)
    (block : UInt64) : key ∉ entities.dueAt block := by
  rintro ⟨found, same, _⟩
  rw [absent] at same
  cases same

theorem not_mem_dueAt_of_some (present : entities key = some record)
    (elsewhere : record.expiresAt ≠ block) : key ∉ entities.dueAt block := by
  rintro ⟨found, same, expires⟩
  rw [present] at same
  obtain rfl := Option.some.inj same
  exact elsewhere expires

theorem expire_eq_some_iff :
    entities.expire block key = some record ↔
      entities key = some record ∧ record.expiresAt ≠ block := by
  unfold Entities.expire
  rw [Option.filter_eq_some_iff, decide_eq_true_iff]

theorem dueAt_expire (entities : Entities) (block : UInt64) :
    (entities.expire block).dueAt block = ∅ := by
  apply Set.eq_empty_of_forall_notMem
  rintro key ⟨record, found, expires⟩
  exact (expire_eq_some_iff.mp found).2 expires

theorem live_expire_subset (entities : Entities) (block : UInt64) :
    (entities.expire block).live ⊆ entities.live := by
  intro key remaining
  obtain ⟨record, found⟩ := Option.isSome_iff_exists.mp remaining
  exact Option.isSome_iff_exists.mpr
    ⟨record, (expire_eq_some_iff.mp found).1⟩

theorem not_mem_dueAt_of_remaining
    (remaining : key ∈ (entities.expire block).live) :
    key ∉ entities.dueAt block := by
  rintro ⟨record, present, expires⟩
  obtain ⟨other, found⟩ := Option.isSome_iff_exists.mp remaining
  obtain ⟨same, stays⟩ := expire_eq_some_iff.mp found
  rw [present] at same
  obtain rfl := Option.some.inj same
  exact stays expires

theorem mem_live_of_dueAt (due : key ∈ entities.dueAt block) :
    key ∈ entities.live := by
  obtain ⟨record, found, _⟩ := due
  exact Option.isSome_iff_exists.mpr ⟨record, found⟩

/-- If none expire, none are due. -/
theorem dueAt_eq_empty (finite : entities.live.Finite)
    (counted : entities.live.ncard = (entities.expire block).live.ncard) :
    entities.dueAt block = ∅ := by
  have same := Set.eq_of_subset_of_ncard_le (live_expire_subset entities block)
    counted.le finite
  apply Set.eq_empty_of_forall_notMem
  intro key due
  apply not_mem_dueAt_of_remaining _ due
  rw [same]
  exact mem_live_of_dueAt due

theorem expire_expire (entities : Entities) (block : UInt64) :
    (entities.expire block).expire block = entities.expire block := by
  funext key
  unfold Entities.expire
  rw [Option.filter_filter]
  simp only [Bool.and_self]

theorem dueAt_expire_other (entities : Entities) {other : UInt64}
    (different : other ≠ block) :
    (entities.expire block).dueAt other = entities.dueAt other := by
  ext key
  constructor
  · rintro ⟨record, found, expires⟩
    exact ⟨record, (expire_eq_some_iff.mp found).1, expires⟩
  · rintro ⟨record, found, expires⟩
    refine ⟨record, expire_eq_some_iff.mpr ⟨found, ?_⟩, expires⟩
    rwa [expires]

/-- The three changes of a creation. -/
theorem ledger_create (absent : entities key = none) (record : Metadata) :
    ((entities.ledger.setRecord key (some record)).setMembers .registry
        (insert key entities.live)).setMembers (.due record.expiresAt)
          (insert key (entities.dueAt record.expiresAt)) =
      ledger (Function.update entities key (some record)) := by
  ext1
  · rfl
  · funext name
    cases name with
    | registry =>
        rw [Ledger.setMembers_other _ (by simp), Ledger.setMembers_same]
        exact (live_update entities key record).symm
    | due block =>
        by_cases here : block = record.expiresAt
        · subst block
          rw [Ledger.setMembers_same]
          exact (dueAt_update entities key record).symm
        · rw [Ledger.setMembers_other _ (by simpa using here),
            Ledger.setMembers_other _ (by simp)]
          change entities.dueAt block = dueAt _ block
          rw [dueAt_update_other entities key (Ne.symm here),
            Set.sdiff_singleton_eq_self (not_mem_dueAt_of_none absent block)]

/-- The changes of an update that moves an entity to another block. -/
theorem ledger_move {current : Metadata}
    (present : entities key = some current) (record : Metadata) :
    ((entities.ledger.setMembers (.due current.expiresAt)
        (entities.dueAt current.expiresAt \ {key})).setMembers
          (.due record.expiresAt)
            (insert key (entities.dueAt record.expiresAt))).setRecord key
              (some record) =
      ledger (Function.update entities key (some record)) := by
  ext1
  · rfl
  · funext name
    cases name with
    | registry =>
        change entities.live = live _
        rw [live_update, Set.insert_eq_of_mem]
        exact Option.isSome_iff_exists.mpr ⟨current, present⟩
    | due block =>
        by_cases later : block = record.expiresAt
        · subst block
          change (Ledger.setMembers _ _ _).members _ = _
          rw [Ledger.setMembers_same]
          exact (dueAt_update entities key record).symm
        · change (Ledger.setMembers _ _ _).members _ = dueAt _ block
          rw [Ledger.setMembers_other _ (by simpa using later),
            dueAt_update_other entities key (Ne.symm later)]
          by_cases earlier : block = current.expiresAt
          · subst block
            rw [Ledger.setMembers_same]
          · rw [Ledger.setMembers_other _ (by simpa using earlier),
              Set.sdiff_singleton_eq_self
                (not_mem_dueAt_of_some present (Ne.symm earlier))]
            rfl

/-- The change of an update that leaves an entity at its block. -/
theorem ledger_replace {current : Metadata}
    (present : entities key = some current)
    (stays : current.expiresAt = record.expiresAt) :
    entities.ledger.setRecord key (some record) =
      ledger (Function.update entities key (some record)) := by
  ext1
  · rfl
  · funext name
    cases name with
    | registry =>
        change entities.live = live _
        rw [live_update, Set.insert_eq_of_mem]
        exact Option.isSome_iff_exists.mpr ⟨current, present⟩
    | due block =>
        change entities.dueAt block = dueAt _ block
        by_cases here : block = record.expiresAt
        · subst block
          rw [dueAt_update, Set.insert_eq_of_mem]
          exact ⟨current, present, stays⟩
        · rw [dueAt_update_other entities key (Ne.symm here),
            Set.sdiff_singleton_eq_self]
          exact not_mem_dueAt_of_some present
            (fun same => here (same.symm.trans stays))

section Unscheduled

variable {current : Metadata} (present : entities key = some current)

theorem unscheduled_registry (entities : Entities) (key : EntityKey)
    (current : Metadata) :
    (entities.unscheduled key current).members .registry = entities.live := by
  rw [unscheduled, Ledger.setMembers_other _ (by simp)]
  rfl

include present

theorem not_mem_unscheduled (block : UInt64) :
    key ∉ (entities.unscheduled key current).members (.due block) := by
  by_cases own : block = current.expiresAt
  · rw [unscheduled, own, Ledger.setMembers_same]
    exact fun due => due.2 rfl
  · rw [unscheduled, Ledger.setMembers_other _ (by simpa using own)]
    exact not_mem_dueAt_of_some present (Ne.symm own)

/-- The changes of a deletion. -/
theorem ledger_delete :
    (entities.unscheduled key current).forget key =
      ledger (Function.update entities key none) := by
  rw [Ledger.forget, unscheduled_registry]
  ext1
  · rfl
  · funext name
    cases name with
    | registry =>
        rw [Ledger.setMembers_same]
        exact (live_delete entities key).symm
    | due block =>
        rw [Ledger.setMembers_other _ (by simp), unscheduled]
        change (Ledger.setMembers _ _ _).members _ = dueAt _ block
        rw [dueAt_delete]
        by_cases here : block = current.expiresAt
        · subst block
          rw [Ledger.setMembers_same]
        · rw [Ledger.setMembers_other _ (by simpa using here),
            Set.sdiff_singleton_eq_self
              (not_mem_dueAt_of_some present (Ne.symm here))]
          rfl

end Unscheduled

/-- The changes of an expiry, when all keys that are due are listed. -/
theorem ledger_expire {list : List EntityKey}
    (members : ∀ key, key ∈ list ↔ key ∈ entities.dueAt block) :
    list.foldl Ledger.forget (entities.drained block) =
      (entities.expire block).ledger := by
  have remaining : ∀ key, entities.expire block key =
      if key ∈ list then none else entities key := by
    intro key
    unfold Entities.expire
    by_cases listed : key ∈ list
    · obtain ⟨record, found, expires⟩ := (members key).mp listed
      simp [listed, found, expires]
    · rw [if_neg listed]
      cases found : entities key with
      | none => rfl
      | some record =>
          have stays : record.expiresAt ≠ block :=
            fun expires => listed ((members key).mpr ⟨record, found, expires⟩)
          simp [stays]
  ext1
  · funext key
    rw [Ledger.foldl_forget_record]
    exact (remaining key).symm
  · funext name
    cases name with
    | registry =>
        rw [Ledger.foldl_forget_registry]
        ext key
        change (entities key).isSome ∧ key ∉ list ↔
          (entities.expire block key).isSome
        rw [remaining key]
        by_cases listed : key ∈ list
        · simp [listed]
        · simp [listed]
    | due other =>
        rw [Ledger.foldl_forget_due, drained]
        by_cases here : other = block
        · subst other
          rw [Ledger.setMembers_same]
          exact (dueAt_expire entities block).symm
        · rw [Ledger.setMembers_other _ (by simpa using here)]
          exact (dueAt_expire_other entities here).symm

/-! ## Expiring key by key -/

section Drained

variable {done left : List EntityKey}
  (members : ∀ other, other ∈ done ++ key :: left ↔
    other ∈ entities.dueAt block)

theorem drained_due (entities : Entities) (block : UInt64)
    (done : List EntityKey) :
    (done.foldl Ledger.forget (entities.drained block)).members
      (.due block) = ∅ := by
  rw [Ledger.foldl_forget_due, drained, Ledger.setMembers_same]

/-- The keys that are still registered. -/
theorem drained_registry (entities : Entities) (block : UInt64)
    (done : List EntityKey) :
    (done.foldl Ledger.forget (entities.drained block)).members .registry =
      {other | other ∈ entities.live ∧ other ∉ done} := by
  rw [Ledger.foldl_forget_registry, drained,
    Ledger.setMembers_other _ (by simp)]
  rfl

include members

theorem live_expire_subset_left :
    (entities.expire block).live ⊆
      {other | other ∈ entities.live ∧ other ∉ done} \ {key} := by
  intro other remaining
  have stays := not_mem_dueAt_of_remaining remaining
  refine ⟨⟨live_expire_subset entities block remaining, ?_⟩, ?_⟩
  · exact fun earlier => stays ((members other).mp (by simp [earlier]))
  · rintro rfl
    exact stays ((members other).mp (by simp))

variable (nodup : (done ++ key :: left).Nodup)
  (finite : entities.live.Finite)

include nodup finite

/-- As long as a key is to be forgotten, more are registered than are to
remain. -/
theorem ncard_live_expire_ne :
    {other | other ∈ entities.live ∧ other ∉ done}.ncard ≠
      (entities.expire block).live.ncard := by
  have registered : key ∈ {other | other ∈ entities.live ∧ other ∉ done} := by
    refine ⟨mem_live_of_dueAt ((members key).mp (by simp)), ?_⟩
    exact fun earlier => (List.nodup_append.mp nodup).2.2 key earlier key
      List.mem_cons_self rfl
  have some := finite.subset fun _ (member : _ ∈
    {other | other ∈ entities.live ∧ other ∉ done}) => member.1
  have fewer := Set.ncard_sdiff_singleton_lt_of_mem registered some
  have least := Set.ncard_le_ncard (live_expire_subset_left members)
    (some.subset Set.sdiff_subset)
  omega

/-- If as many are registered as are to remain, no key is left. -/
theorem eq_nil_of_ncard_live_expire
    (counted : ({other | other ∈ entities.live ∧ other ∉ done} \
      {key}).ncard = (entities.expire block).live.ncard) : left = [] := by
  have some : ({other | other ∈ entities.live ∧ other ∉ done} \
      {key}).Finite := finite.subset fun _ member => member.1.1
  have same := Set.eq_of_subset_of_ncard_le (live_expire_subset_left members)
    counted.le some
  apply List.eq_nil_iff_forall_not_mem.mpr
  intro other later
  have due := (members other).mp (by simp [later])
  apply not_mem_dueAt_of_remaining _ due
  obtain ⟨_, behind, apart⟩ := List.nodup_append.mp nodup
  rw [same]
  refine ⟨⟨mem_live_of_dueAt due, ?_⟩, ?_⟩
  · exact fun earlier => apart other earlier other
      (List.mem_cons_of_mem key later) rfl
  · rintro rfl
    exact (List.nodup_cons.mp behind).1 later

end Drained

end Entities

end EntityStore

end SlotStorage
