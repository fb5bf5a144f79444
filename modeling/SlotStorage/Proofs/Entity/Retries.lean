import SlotStorage.Proofs.Entity.Calls

/-!
# Removals that are tried again

After a failure, a removal goes by what is left: deleting by the record,
expiring by the expiry set.  As long as that can be found, or if nothing but
the entities to remain is registered, trying again completes the removal.
-/

namespace SlotStorage

namespace EntityStore

/-- A removal of entities. -/
inductive Removal where
  | delete (key : EntityKey)
  | expire (block : UInt64)

section Retries

variable [Compression]

namespace Removal

/-- The removal as a call. -/
def call (codec : RecordCodec) : Removal → Call
  | .delete key => .delete codec key
  | .expire block => .expire codec block

/-- The entities that are to remain. -/
def next (entities : Entities) : Removal → Entities
  | .delete key => Function.update entities key none
  | .expire block => entities.expire block

/-- What the removal leaves of the storage if calls fail as planned. -/
def leftBy (site : Site) (codec : RecordCodec) (plan : FaultPlan)
    (contents : Contents) (removal : Removal) : Contents :=
  (((removal.call codec).perform site).run.run
    (Contents.backend.withFaults plan) ⟨contents, 0, 0⟩).2.state

/-- What the removal goes by is still there.  For a deletion it is a record of
the entity, whose block still has the entity or lists one entity less; for an
expiry, a list of all entities that are due. -/
def Found (site : Site) (scope : Scope) (entities : Entities)
    (codec : RecordCodec) (contents : Contents) : Removal → Prop
  | .delete key => ∃ current record, entities key = some current ∧
    ((site.store codec).get key).Runs contents (some record) contents ∧
    record.expiresAt ∈ scope.blocks ∧
    (((site.store codec).expiry.isScheduled current.expiresAt key).Runs
        contents true contents ∨
      ∃ list, ((site.store codec).expiry.dueAt current.expiresAt).Runs
        contents list contents ∧
          list.length < (entities.dueAt current.expiresAt).ncard)
  | .expire block => ∃ list,
    ((site.store codec).expiry.dueAt block).Runs contents list contents ∧
      ∀ key ∈ entities.dueAt block, key ∈ list

/-- The removal can be taken up again: what it goes by is there, or the
entities are counted as if it were complete. -/
def Resumable (site : Site) (scope : Scope) (entities : Entities)
    (codec : RecordCodec) (contents : Contents) (removal : Removal) : Prop :=
  removal.Found site scope entities codec contents ∨
    (site.store codec).size.Runs contents (removal.next entities).live.ncard
      contents

end Removal

variable {site : Site} {tidy : Prop} {scope : Scope} {entities : Entities}
  {contents : Contents} {key : EntityKey} {current : Metadata}
  {block : UInt64} {codec : RecordCodec}

/-- The store answers and looks like the map, now and after any calls. -/
def Follows (site : Site) (scope : Scope) (entities : Entities)
    (contents : Contents) : Prop :=
  ∀ calls, (∀ call ∈ calls, Call.Within site scope call) →
    ∃ answers after,
      (Action.attempts (Call.perform site) calls).run Contents.backend
          contents = (answers, after) ∧
        Call.AcceptsAll entities calls answers ∧
        ∀ codec, Shows site scope (Call.entitiesAfter entities calls) after
          codec

theorem follows_of_keeps (inverts : Compression.Inverts)
    (spread : site.Spread scope) (kept : entities.Within scope)
    (keeps : site.Keeps tidy scope entities.ledger contents) :
    Follows site scope entities contents := by
  intro calls within
  obtain ⟨answers, after, runs, accepted, keptAfter, keepsAfter⟩ :=
    Call.run_attempts inverts spread within kept keeps
  exact ⟨answers, after, runs, accepted,
    shows_of_keeps spread keptAfter keepsAfter⟩

/-- If the entities are not counted as if the removal were complete, what it
goes by must be there. -/
theorem Removal.Resumable.found {removal : Removal}
    (resumable : removal.Resumable site scope entities codec contents)
    {keys : Set EntityKey}
    (sized : (site.set .registry).size.Runs contents keys.ncard contents)
    (differs : keys.ncard ≠ (removal.next entities).live.ncard) :
    removal.Found site scope entities codec contents := by
  rcases resumable with found | counted
  · exact found
  · exact absurd ((RecordAction.runs_ofLayout sized).result_eq counted)
      differs

/-! ## Deleting again -/

/-- A record that can still be read is deleted, and the key is taken out of
the registry. -/
theorem Site.KeepsBut.delete_runs {ledger : Ledger}
    (keeps : site.KeepsBut tidy scope (.record key) ledger contents)
    (tracked : (site.blob key).Tracked scope.dataCells contents)
    (spread : site.Spread scope) (known : key ∈ scope.keys)
    {record : Metadata}
    (found : ((site.store codec).get key).Runs contents (some record)
      contents)
    (blockKnown : record.expiresAt ∈ scope.blocks)
    (absent : key ∉ ledger.members (.due record.expiresAt)) :
    ∃ after, ((site.store codec).delete key).Runs contents true after ∧
      site.Keeps tidy scope (ledger.forget key) after := by
  have due : (SetName.due record.expiresAt).Within scope := blockKnown
  obtain ⟨list, carries, listed⟩ :=
    keeps.tells (.set (.due record.expiresAt)) (by simp) due
  have position := (carries.position_eq_zero_iff (spread.separate due)
    (Scope.mem_words.mpr known)).mpr fun member =>
      absent ((listed key).mp member)
  have unscheduled : ((site.store codec).expiry.unschedule record.expiresAt
      key).Runs contents false contents :=
    ((site.set (.due record.expiresAt)).reads_remove position trivial).runs
  have forgotten : RecordAction.Safe (fun _ => False) (fun _ => True) (do
      (site.store codec).records.delete key
      let _ ← RecordAction.ofLayout
        ((site.store codec).registry.unregister key)
      return true) contents (fun answer after => answer = true ∧
        site.Keeps tidy scope (ledger.forget key) after) :=
    keeps.safe_forget tracked spread codec known (fun _ _ => trivial)
      fun after _ reached => .pure trivial ⟨rfl, reached⟩
  obtain ⟨_, after, runs, rfl, reached⟩ := forgotten.runs
  refine ⟨after, ?_, reached⟩
  unfold delete
  exact found.bind ((RecordAction.runs_ofLayout unscheduled).bind runs)

section Deleting

variable (spread : site.Spread scope) (within : entities.Within scope)
  (present : entities key = some current)
  (resumable : (Removal.delete key).Resumable site scope entities codec
    contents)

include within present in
omit [Compression] in
theorem ncard_live_delete :
    entities.live.ncard ≠ ((Removal.delete key).next entities).live.ncard := by
  have member : key ∈ entities.live :=
    Option.isSome_iff_exists.mpr ⟨current, present⟩
  change _ ≠ (Entities.live (Function.update entities key none)).ncard
  rw [Entities.live_delete]
  exact (Set.ncard_sdiff_singleton_lt_of_mem member within.finite_live).ne'

include spread within present resumable

/-- The deletion failed while the entity left its expiry set. -/
theorem unscheduling_completes
    (keeps : site.KeepsBut tidy scope (.set (.due current.expiresAt))
      entities.ledger contents)
    (leaves : site.Leaves tidy scope (.due current.expiresAt)
      (entities.dueAt current.expiresAt) key contents) :
    ∃ after, ((site.store codec).delete key).Runs contents true after ∧
      site.Keeps False scope
        (Entities.ledger (Function.update entities key none)) after := by
  obtain ⟨known, currentKnown⟩ := within key current present
  have due : (SetName.due current.expiresAt).Within scope := currentKnown
  have lists : site.Lists tidy scope .registry entities.live contents :=
    keeps.tells (.set .registry) (by simp) trivial
  obtain ⟨_, _, counted, _⟩ := lists.members_run spread trivial
  obtain ⟨other, record, same, found, blockKnown, settled⟩ :=
    resumable.found counted (ncard_live_delete within present)
  rw [present] at same
  obtain rfl := Option.some.inj same
  rcases leaves.observed spread due with
    there | ⟨missing, _, list, listed, length⟩ | gone
  · have whole := keeps.setMembers there
    rw [show entities.dueAt current.expiresAt = entities.ledger.members
      (.due current.expiresAt) from rfl, Ledger.setMembers_self] at whole
    obtain ⟨after, runs, _, reached⟩ := delete_achieves whole spread codec
      known present currentKnown
    exact ⟨after, runs, reached.untidy⟩
  · rcases settled with scheduled | ⟨dueList, dueRuns, shorter⟩
    · exact absurd (missing.result_eq scheduled) Bool.false_ne_true
    · obtain rfl := (dueAt_runs listed codec).result_eq dueRuns
      rw [EntityKey.ofWords, List.length_map, length] at shorter
      exact absurd shorter (Nat.lt_irrefl _)
  · have unscheduled : site.Keeps False scope
        (entities.unscheduled key current) contents :=
      keeps.untidy.setMembers gone
    rw [← Entities.ledger_delete present]
    exact (unscheduled.but (.record key)).delete_runs
      (unscheduled.tracked spread known) spread known found blockKnown
        (Entities.not_mem_unscheduled present record.expiresAt)

/-- The deletion failed while the record was erased or the key left the
registry. -/
theorem forgetting_completes
    (forgetting : site.Forgetting tidy scope
      (entities.unscheduled key current) key contents) :
    ∃ answer after,
      ((site.store codec).delete key).Runs contents answer after ∧
        site.Keeps False scope
          (Entities.ledger (Function.update entities key none)) after := by
  have known := (within key current present).1
  have registry : SetName.registry.Within scope := trivial
  have fewer := ncard_live_delete within present
  have registered := Entities.unscheduled_registry entities key current
  rw [← Entities.ledger_delete present]
  cases forgetting with
  | erasing keeps tracked =>
      have lists := keeps.tells (.set .registry) (by simp) registry
      rw [Site.Tells, registered] at lists
      obtain ⟨_, _, counted, _⟩ := lists.members_run spread registry
      obtain ⟨_, record, _, found, blockKnown, _⟩ :=
        resumable.found counted fewer
      obtain ⟨after, runs, reached⟩ := keeps.delete_runs tracked spread
        known found blockKnown
          (Entities.not_mem_unscheduled present record.expiresAt)
      exact ⟨true, after, runs, reached.untidy⟩
  | unregistering keeps leaves =>
      rcases leaves.counted_or_gone spread registry with counted | gone
      · rw [registered] at counted
        obtain ⟨_, record, _, found, _, _⟩ := resumable.found counted fewer
        have erased : ((site.store codec).records.blobFor key).Keeps
            BinaryFormat.metadata (scope.dataCells + 1) _ contents :=
          keeps.tells (.record key) (by simp) known
        rw [Ledger.setRecord_same] at erased
        cases found.result_eq
          (RecordStore.load_runs erased (spread.records key known))
      · have reached : site.Keeps False scope
            ((entities.unscheduled key current).forget key) contents :=
          keeps.untidy.setMembers gone
        have whole := reached
        rw [Entities.ledger_delete present] at whole
        exact ⟨false, contents, delete_runs whole spread codec known
          (Function.update_self _ _ _), reached⟩

end Deleting

/-! ## Expiring again -/

section Expiring

variable (spread : site.Spread scope) (within : entities.Within scope)
  (blockKnown : block ∈ scope.blocks)
  (resumable : (Removal.expire block).Resumable site scope entities codec
    contents)

include spread within blockKnown resumable

/-- The expiry failed while the expiry set was emptied. -/
theorem draining_completes
    (keeps : site.KeepsBut tidy scope (.set (.due block)) entities.ledger
      contents)
    (clears : site.Clears tidy scope (.due block) (entities.dueAt block)
      contents) :
    ∃ answer after,
      ((site.store codec).expire block).Runs contents answer after ∧
        site.Keeps False scope (entities.expire block).ledger after := by
  have due : (SetName.due block).Within scope := blockKnown
  have lists : site.Lists tidy scope .registry entities.live contents :=
    keeps.tells (.set .registry) (by simp) trivial
  obtain ⟨_, _, counted, _⟩ := lists.members_run spread trivial
  have fades : site.Fades tidy scope (.due block) (entities.dueAt block)
      contents := by
    apply clears.fades spread due
    intro words runs key expires
    by_cases same : entities.live.ncard = (entities.expire block).live.ncard
    · rw [Entities.dueAt_eq_empty within.finite_live same] at expires
      exact expires.elim
    · obtain ⟨list, dueRuns, listed⟩ := resumable.found counted same
      obtain rfl := (dueAt_runs runs codec).result_eq dueRuns
      obtain ⟨word, inside, rfl⟩ := List.mem_map.mp (listed key expires)
      exact inside
  obtain ⟨list, _, _, safe⟩ := safe_expire keeps fades spread codec within
    blockKnown (fun _ _ => trivial)
  obtain ⟨answer, after, runs, _, reached⟩ := safe.runs
  exact ⟨answer, after, runs, reached.untidy⟩

/-- The expiry failed while the listed entities were forgotten. -/
theorem forgetting_all_completes {done left : List EntityKey}
    (nodup : (done ++ key :: left).Nodup)
    (members : ∀ other, other ∈ done ++ key :: left ↔
      other ∈ entities.dueAt block)
    (forgetting : site.Forgetting tidy scope
      (done.foldl Ledger.forget (entities.drained block)) key contents) :
    ∃ answer after,
      ((site.store codec).expire block).Runs contents answer after ∧
        site.Keeps False scope (entities.expire block).ledger after := by
  have due : (SetName.due block).Within scope := blockKnown
  have registry : SetName.registry.Within scope := trivial
  have registered := Entities.drained_registry entities block done
  have emptied : site.Lists tidy scope (.due block) ∅ contents := by
    rw [← Entities.drained_due entities block done]
    cases forgetting with
    | erasing keeps _ =>
        exact keeps.tells (.set (.due block)) (by simp) due
    | unregistering keeps _ =>
        exact keeps.tells (.set (.due block)) (by simp) due
  have counted : (site.store codec).size.Runs contents
      (entities.expire block).live.ncard contents := by
    rcases resumable with ⟨list, dueRuns, listed⟩ | counted
    · obtain ⟨words, runs, _, _, spells⟩ := emptied.members_run spread due
      obtain rfl := (dueAt_runs runs codec).result_eq dueRuns
      have expires := (members key).mp (by simp)
      exact (spells.mem_keys.mp (listed key expires)).elim
    · exact counted
  have more := Entities.ncard_live_expire_ne members nodup within.finite_live
  cases forgetting with
  | erasing keeps tracked =>
      have lists := keeps.tells (.set .registry) (by simp) registry
      rw [Site.Tells, registered] at lists
      obtain ⟨_, _, sized, _⟩ := lists.members_run spread registry
      exact absurd ((RecordAction.runs_ofLayout sized).result_eq counted) more
  | unregistering keeps leaves =>
      rcases leaves.counted_or_gone spread registry with sized | gone
      · rw [registered] at sized
        exact absurd ((RecordAction.runs_ofLayout sized).result_eq counted)
          more
      · obtain ⟨_, _, sized, _⟩ := gone.members_run spread registry
        rw [registered] at sized
        obtain rfl := Entities.eq_nil_of_ncard_live_expire members nodup
          within.finite_live
            ((RecordAction.runs_ofLayout sized).result_eq counted)
        have reached : site.Keeps False scope ((done ++ [key]).foldl
            Ledger.forget (entities.drained block)) contents := by
          rw [List.foldl_append]
          exact keeps.untidy.setMembers gone
        rw [Entities.ledger_expire members] at reached
        obtain ⟨list, ⟨after, runs, _, last⟩, _⟩ := expire_achieves reached
          spread codec (within.expire block) blockKnown
        rw [Entities.expire_expire] at last
        exact ⟨list, after, runs, last⟩

end Expiring

/-! ## What cannot be taken up again -/

/-- The call is about one key. -/
def Call.On (key : EntityKey) : Call → Prop
  | .create _ other _ | .update _ other _ | .delete _ other => other = key
  | .expire _ _ => False

/-- What a call answers about a registered key that has no record. -/
def Call.refusal : Call → Except RecordError Answer
  | .create _ key _ => .error (.entityExists key)
  | .update _ key _ => .error (.entityNotFound key)
  | .delete _ _ | .expire _ _ => .ok (.found false)

section Stuck

variable (lost : ((site.store codec).get key).Runs contents none contents)
  (registered : ((site.store codec).contains key).Runs contents true contents)

include lost registered

theorem perform_stuck {call : Call} (on : call.On key) :
    (call.perform site).runOn Contents.backend contents =
      (call.refusal, contents) := by
  cases call with
  | create writes other record =>
      obtain rfl := on
      have fails : ((site.store writes).create other record).Fails contents
          (.entityExists other) contents := registered.bind_fails rfl
      exact fails.bind
  | update writes other record =>
      obtain rfl := on
      have fails : ((site.store writes).update other record).Fails contents
          (.entityNotFound other) contents := lost.bind_fails rfl
      exact fails.bind
  | delete writes other =>
      obtain rfl := on
      have runs : ((site.store writes).delete other).Runs contents false
          contents := lost.bind (.pure _ _)
      exact runs.bind (.pure _ _)
  | expire writes block => exact on.elim

/-- A registered key whose record is gone stays so, whatever is called about
it. -/
theorem attempts_stuck {calls : List Call}
    (on : ∀ call ∈ calls, call.On key) :
    (Action.attempts (Call.perform site) calls).run Contents.backend contents =
      (calls.map Call.refusal, contents) := by
  induction calls with
  | nil => rfl
  | cons call calls induction =>
      have first := perform_stuck lost registered (on call List.mem_cons_self)
      apply Action.run_attempts_cons first
      apply induction
      exact fun later member => on later (List.mem_cons_of_mem call member)

end Stuck

/-! ## Trying again -/

namespace Removal

/-- The removal may be cut off so. -/
def Underway (site : Site) (tidy : Prop) (scope : Scope)
    (entities : Entities) (contents : Contents) : Removal → Prop
  | .delete key =>
    (entities key = none ∧ site.Keeps tidy scope entities.ledger contents) ∨
      ∃ current, entities key = some current ∧
        Deleting site tidy scope entities key current contents
  | .expire block => Expiring site tidy scope entities block contents

variable {removal : Removal}

/-- Whichever calls fail, the removal stays underway. -/
theorem safe_perform {causes : StoreError → Prop} (spread : site.Spread scope)
    (within : entities.Within scope)
    (known : (removal.call codec).Within site scope)
    (keeps : site.Keeps tidy scope entities.ledger contents) :
    RecordAction.Safe causes
      (fun between => removal.Underway site tidy scope entities between)
      ((removal.call codec).perform site) contents (fun _ _ => True) := by
  cases removal with
  | delete key =>
      cases present : entities key with
      | none =>
          have loaded : RecordAction.Safe causes
              (fun between => (Removal.delete key).Underway site tidy scope
                entities between) ((site.store codec).get key) contents
              (fun answer after => answer = entities key ∧
                after = contents) :=
            Site.safe_get keeps spread codec known (.inl ⟨present, keeps⟩)
          rw [present] at loaded
          have deletes : RecordAction.Safe causes
              (fun between => (Removal.delete key).Underway site tidy scope
                entities between) ((site.store codec).delete key) contents
              (fun _ _ => True) := by
            unfold EntityStore.delete
            apply loaded.bind
            rintro _ _ kept ⟨rfl, rfl⟩
            exact .pure kept trivial
          exact deletes.bind fun _ _ kept _ => .pure kept trivial
      | some current =>
          apply (safe_delete keeps spread codec known present
            (within key current present).2
            fun between deleting => Or.inr ⟨current, present, deleting⟩).bind
          exact fun _ _ kept _ => .pure kept trivial
  | expire block =>
      have due : (SetName.due block).Within scope := known
      have lists := keeps.tells (.set (.due block)) due
      obtain ⟨_, _, _, safe⟩ := safe_expire (keeps.but _) lists.fades spread
        codec within known fun between expiring => expiring
      exact safe.bind fun _ _ kept _ => .pure kept trivial

/-- A removal that was cut off and can be taken up again completes. -/
theorem Underway.completes
    (underway : removal.Underway site tidy scope entities contents)
    (spread : site.Spread scope) (within : entities.Within scope)
    (known : (removal.call codec).Within site scope)
    (resumable : removal.Resumable site scope entities codec contents) :
    ∃ answer after,
      ((removal.call codec).perform site).Runs contents answer after ∧
        site.Keeps False scope (removal.next entities).ledger after := by
  cases removal with
  | delete key =>
      have deleted : ∃ answer after,
          ((site.store codec).delete key).Runs contents answer after ∧
            site.Keeps False scope
              (Entities.ledger (Function.update entities key none)) after := by
        rcases underway with ⟨absent, keeps⟩ | ⟨current, present, deleting⟩
        · refine ⟨false, contents, delete_runs keeps spread codec known
            absent, ?_⟩
          rw [Function.update_eq_self_iff.mpr absent.symm]
          exact keeps.untidy
        · cases deleting with
          | unscheduling keeps leaves =>
              exact ⟨true, unscheduling_completes spread within present
                resumable keeps leaves⟩
          | forgetting forgetting =>
              exact forgetting_completes spread within present resumable
                forgetting
      obtain ⟨answer, after, runs, reached⟩ := deleted
      exact ⟨.found answer, after, runs.bind (.pure _ _), reached⟩
  | expire block =>
      have expired : ∃ answer after,
          ((site.store codec).expire block).Runs contents answer after ∧
            site.Keeps False scope (entities.expire block).ledger after := by
        cases underway with
        | draining keeps clears =>
            exact draining_completes spread within known resumable keeps
              clears
        | forgetting done key left nodup members forgetting =>
            exact forgetting_all_completes spread within known resumable
              nodup members forgetting
      obtain ⟨answer, after, runs, reached⟩ := expired
      exact ⟨.keys answer, after, runs.bind (.pure _ _), reached⟩

end Removal

/-- The storage that calls make of an empty one. -/
def Call.reached (site : Site) (calls : List Call) : Contents :=
  ((Action.attempts (perform site) calls).run Contents.backend
    Contents.empty).2

/-- After any calls on an empty storage, a removal on which any store calls
fail leaves the storage so that, if the removal can be taken up again, the
same removal completes it: the store then follows the map without what was to
be removed, now and after any further calls. -/
theorem retried_removal_completes (inverts : Compression.Inverts)
    (site : Site) (scope : Scope) (spread : site.Spread scope)
    (calls : List Call) (within : ∀ call ∈ calls, call.Within site scope)
    (removal : Removal) (codec again : RecordCodec)
    (known : (removal.call codec).Within site scope) (plan : FaultPlan)
    (resumable : removal.Resumable site scope
      (Call.entitiesAfter Entities.empty calls) again
      (removal.leftBy site codec plan (Call.reached site calls))) :
    ∃ answer after,
      ((removal.call again).perform site).Runs
          (removal.leftBy site codec plan (Call.reached site calls)) answer
          after ∧
        Follows site scope
          (removal.next (Call.entitiesAfter Entities.empty calls)) after := by
  have start := Site.keeps_empty site scope
  rw [← Entities.ledger_empty] at start
  obtain ⟨answers, reached, runs, _, kept, keeps⟩ :=
    Call.run_attempts inverts spread within
      (fun key record found => by cases found) start
  have same : Call.reached site calls = reached := by
    rw [Call.reached, runs]
  rw [same] at resumable ⊢
  have underway : removal.Underway site True scope
      (Call.entitiesAfter Entities.empty calls)
      (removal.leftBy site codec plan reached) :=
    (Removal.safe_perform spread kept known keeps).kept_run ⟨reached, 0, 0⟩
  have knownAgain : (removal.call again).Within site scope := by
    cases removal with
    | delete key => exact known
    | expire block => exact known
  obtain ⟨answer, after, retried, completed⟩ :=
    underway.completes spread kept knownAgain resumable
  refine ⟨answer, after, retried, ?_⟩
  apply follows_of_keeps inverts spread _ completed
  cases removal with
  | delete key => exact kept.delete key
  | expire block => exact kept.expire block

end Retries

/-- Under Keccak-256 a deletion fails once the entity has left its expiry set,
and the next deletion completes it. -/
theorem retried_removal_completes_keccak :
    letI := Compression.plain
    let calls : List Call := [.create .raw ⟨7⟩ ⟨9, [], [], 0⟩]
    let removal : Removal := .delete ⟨7⟩
    let failed := removal.leftBy keccakSite .raw (.afterCalls 13 (.io "gone"))
      (Call.reached keccakSite calls)
    let entities := Call.entitiesAfter Entities.empty calls
    removal.Resumable keccakSite smallScope entities .raw failed ∧
      ∃ answer after,
        ((removal.call .raw).perform keccakSite).Runs failed answer after ∧
          Follows keccakSite smallScope (removal.next entities) after := by
  intro calls removal failed entities
  have keyKnown : (⟨7⟩ : EntityKey) ∈ smallScope.keys := by decide
  have blockKnown : (9 : UInt64) ∈ smallScope.blocks := by decide
  have within : ∀ call ∈ calls,
      @Call.Within Compression.plain keccakSite smallScope call := by
    decide +kernel
  let := Compression.plain
  have present : entities ⟨7⟩ = some ⟨9, [], [], 0⟩ := by decide +kernel
  let frame := RecordCodec.raw.encode
    (BinaryFormat.metadata.write ⟨9, [], [], 0⟩)
  have cells : (∀ offset < 5, failed ((keccakSite.blob ⟨7⟩).cell offset) =
      (Blob.encode frame).getD offset 0) ∧
      failed (keccakSite.set (.due 9)).members.lengthCell = 0 := by
    decide +kernel
  have stored : (keccakSite.blob ⟨7⟩).Holds 5 frame failed :=
    ⟨by decide +kernel, cells.1⟩
  have found : ((keccakSite.store .raw).get ⟨7⟩).Runs failed
      (some ⟨9, [], [], 0⟩) failed :=
    RecordStore.load_runs ⟨_, stored, by decide +kernel⟩
      (keccak_spread.records ⟨7⟩ keyKnown)
  have emptied : (keccakSite.set (.due 9)).members.Shows [] failed :=
    ⟨cells.2, fun _ within => absurd within (Nat.not_lt_zero _)⟩
  have due : (SetName.due 9).Within smallScope := blockKnown
  have listed := (emptied.reads_toList (keccak_spread.separate due).fits
    (Nat.zero_le _) trivial).runs
  have empty : Entities.empty.Within smallScope := by
    intro key record same
    cases same
  have live : entities.live.Finite :=
    (Call.within_next empty (within _ List.mem_cons_self)).finite_live
  have fewer : 0 < (entities.dueAt 9).ncard := by
    apply (Set.ncard_pos _).mpr
    · exact ⟨⟨7⟩, _, present, rfl⟩
    · apply live.subset
      rintro key ⟨record, same, _⟩
      exact Option.isSome_iff_exists.mpr ⟨record, same⟩
  have resumable : removal.Resumable keccakSite smallScope entities .raw
      failed :=
    .inl ⟨_, _, present, found, blockKnown,
      .inr ⟨[], dueAt_runs listed .raw, fewer⟩⟩
  exact ⟨resumable, retried_removal_completes Compression.inverts_plain
    keccakSite smallScope keccak_spread calls within removal .raw .raw
    keyKnown _ resumable⟩

/-- Under Keccak-256 an entity stays if its deletion fails after its record
is gone, or if its expiry fails after its expiry set is empty. -/
theorem retried_removal_stuck_keccak :
    letI := Compression.plain
    let record : Metadata := ⟨9, [], [], 0⟩
    let answers (calls : List Call) (count : Nat) :=
      ((Action.attempts (Call.perform keccakSite) calls).run
        (Contents.backend.withFaults (.afterCalls count (.io "gone")))
        ⟨Contents.empty, 0, 0⟩).1
    answers [.create .raw ⟨7⟩ record, .delete .raw ⟨7⟩, .delete .raw ⟨7⟩,
        .create .raw ⟨7⟩ record] 32 =
      [.ok .done, .error (.layout (.store (.io "gone"))), .ok (.found false),
        .error (.entityExists ⟨7⟩)] ∧
    answers [.create .raw ⟨7⟩ record, .expire .raw 9, .expire .raw 9,
        .create .raw ⟨7⟩ record] 27 =
      [.ok .done, .error (.layout (.store (.io "gone"))), .ok (.keys []),
        .error (.entityExists ⟨7⟩)] := by
  decide +kernel

end EntityStore

end SlotStorage
