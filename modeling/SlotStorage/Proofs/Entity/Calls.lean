import SlotStorage.Proofs.Entity.Removals

/-!
# Runs of entity calls

A run of calls answers like the same calls on a map from keys to metadata, and
what can be seen of the store afterwards is the map.  Every call may write
records with a codec of its own.  Every beginning of a run is a run, so this
is how the store looks after every call.
-/

namespace SlotStorage

namespace EntityStore

section Runs

variable [Compression]

/-- A call on an entity store that writes records with a codec. -/
inductive Call where
  | create (codec : RecordCodec) (key : EntityKey) (record : Metadata)
  | update (codec : RecordCodec) (key : EntityKey) (record : Metadata)
  | delete (codec : RecordCodec) (key : EntityKey)
  | expire (codec : RecordCodec) (block : UInt64)

/-- What a call answers. -/
inductive Answer where
  | done
  | found (value : Bool)
  | keys (list : List EntityKey)
  deriving DecidableEq

namespace Call

/-- The call on the storage. -/
def perform (site : Site) : Call → RecordAction Answer
  | .create codec key record => do
    (site.store codec).create key record
    return .done
  | .update codec key record => do
    (site.store codec).update key record
    return .done
  | .delete codec key => do return .found (← (site.store codec).delete key)
  | .expire codec block => do return .keys (← (site.store codec).expire block)

/-- The entities after the call. -/
def next (entities : Entities) : Call → Entities
  | .create _ key record =>
    if (entities key).isSome then entities
    else Function.update entities key (some record)
  | .update _ key record =>
    if (entities key).isSome then Function.update entities key (some record)
    else entities
  | .delete _ key => Function.update entities key none
  | .expire _ block => entities.expire block

/-- The call may answer so.  Only the order of the keys that expire is left
open. -/
def Accepts (entities : Entities) : Call → Except RecordError Answer → Prop
  | .create _ key _, answer => answer =
    if (entities key).isSome then .error (.entityExists key) else .ok .done
  | .update _ key _, answer => answer =
    if (entities key).isSome then .ok .done else .error (.entityNotFound key)
  | .delete _ key, answer => answer = .ok (.found (entities key).isSome)
  | .expire _ block, answer => ∃ list, answer = .ok (.keys list) ∧
    list.Nodup ∧ ∀ key, key ∈ list ↔ key ∈ entities.dueAt block

/-- The call keeps to the keys and blocks in use. -/
def Within (site : Site) (scope : Scope) : Call → Prop
  | .create codec key record | .update codec key record =>
    key ∈ scope.keys ∧ record.expiresAt ∈ scope.blocks ∧
      Storable site scope codec record
  | .delete _ key => key ∈ scope.keys
  | .expire _ block => block ∈ scope.blocks

instance (site : Site) (scope : Scope) (call : Call) :
    Decidable (call.Within site scope) :=
  match call with
  | .create _ _ _ | .update _ _ _ => inferInstanceAs (Decidable (_ ∧ _ ∧ _))
  | .delete _ _ | .expire _ _ => inferInstanceAs (Decidable (_ ∈ _))

/-- Every answer is one that its call may give. -/
def AcceptsAll : Entities → List Call → List (Except RecordError Answer) → Prop
  | _, [], [] => True
  | entities, call :: calls, answer :: answers =>
    call.Accepts entities answer ∧ AcceptsAll (call.next entities) calls answers
  | _, _, _ => False

/-- The entities after calls. -/
def entitiesAfter (entities : Entities) (calls : List Call) : Entities :=
  calls.foldl next entities

end Call

variable {site : Site} {tidy : Prop} {scope : Scope} {entities : Entities}
  {contents : Contents}

/-- What can be seen of the store, whatever the codec, is the map. -/
structure Shows (site : Site) (scope : Scope) (entities : Entities)
    (contents : Contents) (codec : RecordCodec) : Prop where
  get : ∀ key ∈ scope.keys,
    ((site.store codec).get key).Runs contents (entities key) contents
  contains : ∀ key ∈ scope.keys,
    ((site.store codec).contains key).Runs contents (entities key).isSome
      contents
  size : (site.store codec).size.Runs contents entities.live.ncard contents
  isEmpty : (site.store codec).isEmpty.Runs contents
    (decide (entities.live.ncard = 0)) contents
  keys : ∃ list, (site.store codec).keys.Runs contents list contents ∧
    list.Nodup ∧ ∀ key, key ∈ list ↔ (entities key).isSome
  dueAt : ∀ block ∈ scope.blocks, ∃ list,
    ((site.store codec).expiry.dueAt block).Runs contents list contents ∧
      list.Nodup ∧ ∀ key, key ∈ list ↔
        ∃ record, entities key = some record ∧ record.expiresAt = block
  dueOnce : ∀ key, (entities key).isSome → ∃! block,
    block ∈ scope.blocks ∧ ∃ list,
      ((site.store codec).expiry.dueAt block).Runs contents list contents ∧
        key ∈ list

theorem Call.within_next {call : Call} (kept : entities.Within scope)
    (within : call.Within site scope) :
    (call.next entities).Within scope := by
  cases call with
  | create codec key record =>
      by_cases present : (entities key).isSome
      · rwa [next, if_pos present]
      · rw [next, if_neg present]
        exact kept.update within.1 within.2.1
  | update codec key record =>
      by_cases present : (entities key).isSome
      · rw [next, if_pos present]
        exact kept.update within.1 within.2.1
      · rwa [next, if_neg present]
  | delete codec key => exact kept.delete key
  | expire codec block => exact kept.expire block

/-- A call gives an answer that it may give and brings the storage to the next
map. -/
theorem Call.perform_step (inverts : Compression.Inverts)
    (spread : site.Spread scope) {call : Call}
    (within : call.Within site scope) (kept : entities.Within scope)
    (keeps : site.Keeps tidy scope entities.ledger contents) :
    ∃ answer after,
      (call.perform site).runOn Contents.backend contents = (answer, after) ∧
        call.Accepts entities answer ∧
        site.Keeps tidy scope (call.next entities).ledger after := by
  cases call with
  | create codec key record =>
      obtain ⟨known, blockKnown, storable⟩ := within
      cases found : entities key with
      | none =>
          obtain ⟨after, runs, _, reached⟩ := create_achieves keeps spread
            inverts known blockKnown storable found
          refine ⟨_, after, runs.bind (.pure _ _), ?_, ?_⟩
          · simp [Accepts, found]
          · simpa [next, found] using reached
      | some current =>
          have fails := create_fails keeps spread codec known
            (by simp [found]) record
          refine ⟨_, contents, fails.bind, ?_, ?_⟩
          · simp [Accepts, found]
          · simpa [next, found] using keeps
  | update codec key record =>
      obtain ⟨known, blockKnown, storable⟩ := within
      cases found : entities key with
      | none =>
          have fails := update_fails keeps spread codec known found record
          refine ⟨_, contents, fails.bind, ?_, ?_⟩
          · simp [Accepts, found]
          · simpa [next, found] using keeps
      | some current =>
          obtain ⟨after, runs, _, reached⟩ := update_achieves keeps spread
            inverts known blockKnown storable found
              (kept key current found).2
          refine ⟨_, after, runs.bind (.pure _ _), ?_, ?_⟩
          · simp [Accepts, found]
          · simpa [next, found] using reached
  | delete codec key =>
      cases found : entities key with
      | none =>
          have runs := delete_runs keeps spread codec within found
          refine ⟨_, contents, runs.bind (.pure _ _), ?_, ?_⟩
          · simp [Accepts, found]
          · rwa [next, Function.update_eq_self_iff.mpr found.symm]
      | some current =>
          obtain ⟨after, runs, _, reached⟩ := delete_achieves keeps spread
            codec within found (kept key current found).2
          refine ⟨_, after, runs.bind (.pure _ _), ?_, reached⟩
          simp [Accepts, found]
  | expire codec block =>
      obtain ⟨list, ⟨after, runs, _, reached⟩, nodup, members⟩ :=
        expire_achieves keeps spread codec kept within
      exact ⟨_, after, runs.bind (.pure _ _), ⟨list, rfl, nodup, members⟩,
        reached⟩

theorem Call.run_attempts (inverts : Compression.Inverts)
    (spread : site.Spread scope) {calls : List Call}
    (within : ∀ call ∈ calls, call.Within site scope)
    (kept : entities.Within scope)
    (keeps : site.Keeps tidy scope entities.ledger contents) :
    ∃ answers after,
      (Action.attempts (perform site) calls).run Contents.backend contents =
          (answers, after) ∧
        AcceptsAll entities calls answers ∧
        (entitiesAfter entities calls).Within scope ∧
        site.Keeps tidy scope (entitiesAfter entities calls).ledger after := by
  induction calls generalizing entities contents with
  | nil => exact ⟨[], contents, rfl, trivial, kept, keeps⟩
  | cons call calls induction =>
      have callWithin := within call List.mem_cons_self
      obtain ⟨answer, between, runs, accepted, reached⟩ :=
        perform_step inverts spread callWithin kept keeps
      obtain ⟨answers, after, laterRuns, others, last, lastKeeps⟩ :=
        induction (fun later member =>
          within later (List.mem_cons_of_mem call member))
          (within_next kept callWithin) reached
      exact ⟨answer :: answers, after,
        Action.run_attempts_cons runs laterRuns, ⟨accepted, others⟩, last,
        lastKeeps⟩

omit [Compression] in
theorem dueAt_runs {block : UInt64} {list : List Word}
    (listed : (site.set (.due block)).toList.Runs contents list contents)
    (codec : RecordCodec) :
    ((site.store codec).expiry.dueAt block).Runs contents
      (EntityKey.ofWords list) contents :=
  listed.bind (.pure _ _)

theorem dueAt_run (spread : site.Spread scope)
    (keeps : site.Keeps tidy scope entities.ledger contents)
    (codec : RecordCodec) {block : UInt64} (known : block ∈ scope.blocks) :
    ∃ list,
      ((site.store codec).expiry.dueAt block).Runs contents list contents ∧
        list.Nodup ∧ ∀ key, key ∈ list ↔ key ∈ entities.dueAt block := by
  have due : (SetName.due block).Within scope := known
  obtain ⟨list, listed, _, _, spells⟩ :=
    (keeps.tells (.set (.due block)) due).members_run spread due
  exact ⟨_, dueAt_runs listed codec, spells.nodup_keys,
    fun key => spells.mem_keys⟩

/-- Every entity is due at its own block and at no other one. -/
theorem dueOnce_of_keeps (spread : site.Spread scope)
    (kept : entities.Within scope)
    (keeps : site.Keeps tidy scope entities.ledger contents)
    (codec : RecordCodec) {key : EntityKey} {record : Metadata}
    (found : entities key = some record) :
    ∃! block, block ∈ scope.blocks ∧ ∃ list,
      ((site.store codec).expiry.dueAt block).Runs contents list contents ∧
        key ∈ list := by
  have blockKnown := (kept key record found).2
  refine ⟨record.expiresAt, ⟨blockKnown, ?_⟩, ?_⟩
  · obtain ⟨list, runs, _, members⟩ := dueAt_run spread keeps codec blockKnown
    exact ⟨list, runs, (members key).mpr ⟨record, found, rfl⟩⟩
  · rintro block ⟨otherKnown, list, runs, member⟩
    obtain ⟨other, otherRuns, _, members⟩ :=
      dueAt_run spread keeps codec otherKnown
    obtain rfl := runs.result_eq otherRuns
    obtain ⟨current, same, expires⟩ := (members key).mp member
    rw [found] at same
    obtain rfl := Option.some.inj same
    exact expires.symm

/-- A storage that keeps the ledger of a map shows the map. -/
theorem shows_of_keeps (spread : site.Spread scope)
    (kept : entities.Within scope)
    (keeps : site.Keeps tidy scope entities.ledger contents)
    (codec : RecordCodec) : Shows site scope entities contents codec := by
  have registry : SetName.registry.Within scope := trivial
  have lists : site.Lists tidy scope .registry entities.live contents :=
    keeps.tells (.set .registry) registry
  obtain ⟨list, listed, counted, checked, spells⟩ :=
    lists.members_run spread registry
  constructor
  · exact fun key known => Site.load_runs keeps spread known codec
  · intro key known
    obtain ⟨found, contained, answer⟩ :=
      lists.contains_runs spread registry known
    have same : found = (entities key).isSome := by
      rw [Bool.eq_iff_iff, answer]
      exact Iff.rfl
    rw [← same]
    exact RecordAction.runs_ofLayout contained
  · exact RecordAction.runs_ofLayout counted
  · exact RecordAction.runs_ofLayout checked
  · exact ⟨_, RecordAction.runs_ofLayout (listed.bind (.pure _ _)),
      spells.nodup_keys, fun key => spells.mem_keys⟩
  · exact fun block known => dueAt_run spread keeps codec known
  · intro key present
    obtain ⟨record, found⟩ := Option.isSome_iff_exists.mp present
    exact dueOnce_of_keeps spread kept keeps codec found

/-- On an empty storage, every run of calls answers like the map, and what can
be seen of the store afterwards is the map. -/
theorem attempts_refine_map (inverts : Compression.Inverts) (site : Site)
    (scope : Scope) (spread : site.Spread scope) (calls : List Call)
    (within : ∀ call ∈ calls, call.Within site scope) :
    ∃ answers after,
      (Action.attempts (Call.perform site) calls).run Contents.backend
          Contents.empty = (answers, after) ∧
        Call.AcceptsAll Entities.empty calls answers ∧
        ∀ codec, Shows site scope
          (Call.entitiesAfter Entities.empty calls) after codec := by
  have start := Site.keeps_empty site scope
  rw [← Entities.ledger_empty] at start
  obtain ⟨answers, after, runs, accepted, kept, keeps⟩ :=
    Call.run_attempts inverts spread within
      (fun key record found => by cases found) start
  exact ⟨answers, after, runs, accepted, shows_of_keeps spread kept keeps⟩

end Runs

/-- The entity store under Keccak-256 in its usual namespaces. -/
def keccakSite : Site :=
  ⟨HashAlgorithm.keccak256.hasher, .storageProcessor, .registryProcessor⟩

/-- Two keys and two blocks, and frames of at most five cells. -/
def smallScope : Scope :=
  ⟨[⟨0⟩, ⟨7⟩].toFinset, [5, 9].toFinset, 4⟩

theorem keccak_spread : keccakSite.Spread smallScope :=
  Site.spread_of_nodup (by decide +kernel) (by decide +kernel)
    (by decide +kernel) (by decide)

/-- Under Keccak-256 an entity moves to the block of another one, which is
deleted before both would expire. -/
theorem attempts_refine_map_keccak :
    letI := Compression.plain
    let calls : List Call :=
      [.create (.zstd 3) ⟨0⟩ ⟨5, [⟨"name", "a"⟩], [], 0⟩,
        .create .raw ⟨7⟩ ⟨9, [], [], 0⟩,
        .update .raw ⟨0⟩ ⟨9, [], [⟨"size", 3⟩], 0⟩, .delete .raw ⟨7⟩,
        .expire .raw 9]
    (∀ call ∈ calls, call.Within keccakSite smallScope) ∧
    ∃ answers after,
      (Action.attempts (Call.perform keccakSite) calls).run Contents.backend
          Contents.empty = (answers, after) ∧
        Call.AcceptsAll Entities.empty calls answers ∧
        ∀ codec, Shows keccakSite smallScope
          (Call.entitiesAfter Entities.empty calls) after codec := by
  intro calls
  have within : ∀ call ∈ calls,
      @Call.Within Compression.plain keccakSite smallScope call := by
    decide +kernel
  exact ⟨within, @attempts_refine_map Compression.plain
    Compression.inverts_plain keccakSite smallScope keccak_spread calls
    within⟩

end EntityStore

end SlotStorage
