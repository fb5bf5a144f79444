import SlotStorage.Proofs.Entity.Calls

/-!
# Which cells are in use

No cell is left behind: at any time every cell is known word by word from the
frames of the live keys and the lists of the sets, and all other cells are
empty.  So expiring all blocks at which entities expire empties the storage.
-/

namespace SlotStorage

namespace EntityStore

section Runs

variable [Compression]

/-- The frame in every blob and the list in every set. -/
structure Inventory where
  frames : EntityKey → Bytes
  lists : SetName → List Word

namespace Inventory

/-- The word that a cell has. -/
def word (inventory : Inventory) : Role → Word
  | .record key offset => (Blob.encode (inventory.frames key)).getD offset 0
  | .element name 0 => Word.ofCount (inventory.lists name).length
  | .element name (index + 1) => (inventory.lists name).getD index 0
  | .position name key =>
    Word.ofCount (MemberList.placeOf key.word (inventory.lists name))

/-- The cell belongs to the frame of an entity or to a listed key. -/
def Uses (inventory : Inventory) (entities : Entities) : Role → Prop
  | .record key offset => (entities key).isSome ∧
    offset < Blob.slotCount (inventory.frames key).length
  | .element name place => place ≤ (inventory.lists name).length
  | .position name key => key.word ∈ inventory.lists name

/-- The frames decode to the metadata of the entities, and the sets list
exactly the keys that they should. -/
structure Fits (inventory : Inventory) (scope : Scope)
    (entities : Entities) : Prop where
  decoded : ∀ key ∈ scope.keys, RecordStore.decodeFrame
    BinaryFormat.metadata (inventory.frames key) = .ok (entities key)
  nodup : ∀ name : SetName, name.Within scope →
    (inventory.lists name).Nodup
  registered : ∀ key : EntityKey, key.word ∈ inventory.lists .registry ↔
    (entities key).isSome
  due : ∀ block ∈ scope.blocks, ∀ key : EntityKey,
    key.word ∈ inventory.lists (.due block) ↔
      ∃ record, entities key = some record ∧ record.expiresAt = block

end Inventory

/-- The cell was written on behalf of a key. -/
def Role.IsFor (key : EntityKey) : Role → Prop
  | .record other _ | .position _ other => other = key
  | .element _ _ => False

variable {site : Site} {scope : Scope} {entities : Entities}
  {contents : Contents} {inventory : Inventory} {key : EntityKey}

/-- The cells have the words of the inventory, and only cells in use have
other words than zero. -/
structure Stocked (site : Site) (scope : Scope) (entities : Entities)
    (inventory : Inventory) (contents : Contents) : Prop
    extends inventory.Fits scope entities where
  words : ∀ role : Role, role.Within scope →
    contents (site.cell role) = inventory.word role
  used : ∀ cell, contents cell ≠ 0 → ∃ role : Role, role.Within scope ∧
    inventory.Uses entities role ∧ site.cell role = cell

theorem Inventory.Fits.word_eq_zero (fits : inventory.Fits scope entities)
    {role : Role} (within : role.Within scope)
    (unused : ¬ inventory.Uses entities role) :
    inventory.word role = 0 := by
  cases role with
  | record key offset =>
      cases found : entities key with
      | none =>
          have decoded := fits.decoded key within.1
          rw [found] at decoded
          rw [word, RecordStore.decodeFrame_none decoded,
            Blob.encode_nil]
          cases offset <;> rfl
      | some record =>
          have beyond : Blob.slotCount (inventory.frames key).length ≤
              offset := by
            by_contra short
            exact unused ⟨by simp [found], by omega⟩
          rw [word, List.getD_eq_default]
          rwa [Blob.length_encode]
  | element name place =>
      cases place with
      | zero => exact absurd (Nat.zero_le _) unused
      | succ index =>
          rw [word, List.getD_eq_default]
          exact Nat.le_of_not_lt unused
  | position name key =>
      rw [word, MemberList.placeOf_of_not_mem unused]
      rfl

theorem exists_stocked
    (keeps : site.Keeps True scope entities.ledger contents) :
    ∃ inventory, Stocked site scope entities inventory contents := by
  choose! frames holds decoded using
    fun key (known : key ∈ scope.keys) => keeps.tells (.record key) known
  choose! lists stands members using
    fun name (within : SetName.Within scope name) =>
      keeps.tells (.set name) within
  have fits : Inventory.Fits ⟨frames, lists⟩ scope entities :=
    ⟨decoded, fun name within => (stands name within).nodup,
      members .registry trivial, fun block known => members (.due block) known⟩
  have words : ∀ role : Role, role.Within scope →
      contents (site.cell role) = Inventory.word ⟨frames, lists⟩ role := by
    intro role within
    cases role with
    | record key offset =>
        exact (holds key within.1).cells offset (Nat.lt_succ_of_le within.2)
    | element name place =>
        have array := (stands name within.1).array
        cases place with
        | zero =>
            rw [Site.cell, Cell.shift_zero]
            exact array.shown.size
        | succ index =>
            change contents ((site.set name).members.element index) = _
            by_cases listed : index < (lists name).length
            · rw [array.shown.elements index listed]
              exact (List.getD_eq_getElem _ _ listed).symm
            · rw [array.empty trivial index (by omega) within.2]
              exact (List.getD_eq_default _ _ (Nat.le_of_not_lt listed)).symm
    | position name key =>
        exact (stands name within.1).positions key.word
          (Scope.mem_words.mpr within.2)
  refine ⟨⟨frames, lists⟩, fits, words, ?_⟩
  intro cell nonzero
  have owned : ∃ part : Part, part.Within scope ∧
      cell ∈ site.area scope part := by
    by_contra outside
    apply nonzero
    apply keeps.blank cell
    exact fun part within inside => outside ⟨part, within, inside⟩
  obtain ⟨part, partWithin, inside⟩ := owned
  obtain ⟨role, within, _, rfl⟩ := Site.exists_role partWithin inside
  refine ⟨role, within, ?_, rfl⟩
  by_contra unused
  apply nonzero
  rw [words role within]
  exact fits.word_eq_zero within unused

/-- No cell is left of a key without an entity. -/
theorem Stocked.eq_zero
    (stocked : Stocked site scope entities inventory contents)
    (absent : entities key = none) {role : Role} (within : role.Within scope)
    (own : role.IsFor key) : contents (site.cell role) = 0 := by
  rw [stocked.words role within]
  apply stocked.toFits.word_eq_zero within
  intro used
  cases role with
  | record other offset =>
      obtain rfl : other = key := own
      have present : (entities other).isSome := used.1
      rw [absent] at present
      exact Bool.false_ne_true present
  | element name place => exact own
  | position name other =>
      obtain rfl : other = key := own
      cases name with
      | registry =>
          have present := (stocked.registered other).mp used
          rw [absent] at present
          exact Bool.false_ne_true present
      | due block =>
          obtain ⟨record, found, _⟩ :=
            (stocked.due block within.1 other).mp used
          rw [absent] at found
          cases found

/-- Without entities all cells are empty. -/
theorem Stocked.eq_empty
    (stocked : Stocked site scope entities inventory contents)
    (none : ∀ key, entities key = none) : contents = Contents.empty := by
  funext cell
  by_contra nonzero
  obtain ⟨role, within, used, rfl⟩ := stocked.used cell nonzero
  have unlisted : ∀ name : SetName, name.Within scope →
      inventory.lists name = [] := by
    intro name nameWithin
    apply List.eq_nil_iff_forall_not_mem.mpr
    intro word listed
    cases name with
    | registry =>
        have present := (stocked.registered ⟨word⟩).mp listed
        rw [none] at present
        exact Bool.false_ne_true present
    | due block =>
        obtain ⟨record, found, _⟩ :=
          (stocked.due block nameWithin ⟨word⟩).mp listed
        rw [none] at found
        cases found
  apply nonzero
  cases role with
  | record key offset => exact stocked.eq_zero (none key) within rfl
  | element name place =>
      rw [stocked.words _ within]
      change place ≤ (inventory.lists name).length at used
      rw [unlisted name within.1] at used
      obtain rfl := Nat.le_zero.mp used
      rw [Inventory.word, unlisted name within.1]
      rfl
  | position name key => exact stocked.eq_zero (none key) within rfl

/-- Expiring blocks, each with a codec. -/
def expiries (order : List (RecordCodec × UInt64)) : List Call :=
  order.map fun pair => .expire pair.1 pair.2

/-- Expiring all blocks at which entities expire, in any order, gives every key
once and leaves nothing. -/
theorem expiries_run (spread : site.Spread scope)
    (within : entities.Within scope)
    (keeps : site.Keeps True scope entities.ledger contents)
    {order : List (RecordCodec × UInt64)}
    (known : ∀ pair ∈ order, pair.2 ∈ scope.blocks)
    (covered : ∀ key record, entities key = some record →
      ∃ codec, (codec, record.expiresAt) ∈ order) :
    ∃ lists : List (List EntityKey),
      (Action.attempts (Call.perform site) (expiries order)).run
          Contents.backend contents =
        (lists.map fun list => .ok (.keys list), Contents.empty) ∧
      lists.flatten.Nodup ∧
      ∀ key, key ∈ lists.flatten ↔ (entities key).isSome := by
  induction order generalizing entities contents with
  | nil =>
      have none : ∀ key, entities key = none := by
        intro key
        rw [Option.eq_none_iff_forall_ne_some]
        intro record found
        obtain ⟨codec, member⟩ := covered key record found
        exact List.not_mem_nil member
      obtain ⟨inventory, stocked⟩ := exists_stocked keeps
      rw [stocked.eq_empty none]
      refine ⟨[], rfl, List.nodup_nil, ?_⟩
      intro key
      rw [none]
      simp
  | cons pair order induction =>
      obtain ⟨codec, block⟩ := pair
      obtain ⟨list, ⟨between, runs, _, reached⟩, nodup, members⟩ :=
        expire_achieves keeps spread codec within
          (known _ List.mem_cons_self)
      have left : ∀ key record, entities.expire block key = some record →
          ∃ codec, (codec, record.expiresAt) ∈ order := by
        intro key record found
        obtain ⟨present, stays⟩ := Entities.expire_eq_some_iff.mp found
        obtain ⟨other, member⟩ := covered key record present
        rcases List.mem_cons.mp member with here | later
        · exact absurd (congrArg Prod.snd here) stays
        · exact ⟨other, later⟩
      obtain ⟨lists, laterRuns, laterNodup, laterMembers⟩ :=
        induction (within.expire block) reached
          (fun pair member => known pair (List.mem_cons_of_mem _ member)) left
      refine ⟨list :: lists,
        Action.run_attempts_cons (runs.bind (.pure _ _)) laterRuns, ?_, ?_⟩
      · rw [List.flatten_cons]
        apply nodup.append laterNodup
        intro key first later
        obtain ⟨record, found, expires⟩ := (members key).mp first
        obtain ⟨other, remaining⟩ :=
          Option.isSome_iff_exists.mp ((laterMembers key).mp later)
        obtain ⟨present, stays⟩ := Entities.expire_eq_some_iff.mp remaining
        rw [found] at present
        obtain rfl := Option.some.inj present
        exact stays expires
      · intro key
        rw [List.flatten_cons, List.mem_append, members key,
          laterMembers key]
        constructor
        · rintro (⟨record, found, _⟩ | remaining)
          · simp [found]
          · obtain ⟨record, found⟩ := Option.isSome_iff_exists.mp remaining
            simp [(Entities.expire_eq_some_iff.mp found).1]
        · intro present
          obtain ⟨record, found⟩ := Option.isSome_iff_exists.mp present
          by_cases expires : record.expiresAt = block
          · exact .inl ⟨record, found, expires⟩
          · right
            simp [Entities.expire_eq_some_iff.mpr ⟨found, expires⟩]

/-- After every run on an empty storage, each cell that is not empty belongs to
the frame of an entity or to a set that lists it, nothing is left of any other
key, and expiring the blocks at which entities expire empties the storage. -/
theorem attempts_leave_no_cell (inverts : Compression.Inverts) (site : Site)
    (scope : Scope) (spread : site.Spread scope) (calls : List Call)
    (within : ∀ call ∈ calls, call.Within site scope) :
    let entities := Call.entitiesAfter Entities.empty calls
    ∃ answers after,
      (Action.attempts (Call.perform site) calls).run Contents.backend
          Contents.empty = (answers, after) ∧
      (∃ inventory, Stocked site scope entities inventory after) ∧
      (∀ key, entities key = none → ∀ role : Role, role.Within scope →
        role.IsFor key → after (site.cell role) = 0) ∧
      ∀ order : List (RecordCodec × UInt64),
        (∀ pair ∈ order, pair.2 ∈ scope.blocks) →
        (∀ key record, entities key = some record →
          ∃ codec, (codec, record.expiresAt) ∈ order) →
        ∃ lists : List (List EntityKey),
          (Action.attempts (Call.perform site) (expiries order)).run
              Contents.backend after =
            (lists.map fun list => .ok (.keys list), Contents.empty) ∧
          lists.flatten.Nodup ∧
          ∀ key, key ∈ lists.flatten ↔ (entities key).isSome := by
  intro entities
  have start := Site.keeps_empty site scope
  rw [← Entities.ledger_empty] at start
  obtain ⟨answers, after, runs, _, kept, keeps⟩ :=
    Call.run_attempts inverts spread within
      (fun key record found => by cases found) start
  obtain ⟨inventory, stocked⟩ := exists_stocked keeps
  refine ⟨answers, after, runs, ⟨inventory, stocked⟩, ?_, ?_⟩
  · exact fun key absent role roleWithin own =>
      stocked.eq_zero absent roleWithin own
  · exact fun order known covered => expiries_run spread kept keeps known
      covered

end Runs

/-- Under Keccak-256, two entities at different blocks, one of which has moved
and has lost cells to a shorter frame. -/
theorem attempts_leave_no_cell_keccak :
    letI := Compression.plain
    let calls : List Call :=
      [.create (.zstd 3) ⟨0⟩ ⟨5, [⟨"name", "a"⟩], [⟨"size", 3⟩], 0⟩,
        .create .raw ⟨7⟩ ⟨9, [], [], 0⟩, .update .raw ⟨0⟩ ⟨9, [], [], 0⟩,
        .update .raw ⟨7⟩ ⟨5, [], [], 0⟩]
    let entities := Call.entitiesAfter Entities.empty calls
    (∀ call ∈ calls, call.Within keccakSite smallScope) ∧
    ∃ answers after,
      (Action.attempts (Call.perform keccakSite) calls).run Contents.backend
          Contents.empty = (answers, after) ∧
      (∃ inventory, Stocked keccakSite smallScope entities inventory after) ∧
      (∀ key, entities key = none → ∀ role : Role, role.Within smallScope →
        role.IsFor key → after (keccakSite.cell role) = 0) ∧
      ∀ order : List (RecordCodec × UInt64),
        (∀ pair ∈ order, pair.2 ∈ smallScope.blocks) →
        (∀ key record, entities key = some record →
          ∃ codec, (codec, record.expiresAt) ∈ order) →
        ∃ lists : List (List EntityKey),
          (Action.attempts (Call.perform keccakSite) (expiries order)).run
              Contents.backend after =
            (lists.map fun list => .ok (.keys list), Contents.empty) ∧
          lists.flatten.Nodup ∧
          ∀ key, key ∈ lists.flatten ↔ (entities key).isSome := by
  intro calls entities
  have within : ∀ call ∈ calls,
      @Call.Within Compression.plain keccakSite smallScope call := by
    decide +kernel
  exact ⟨within, @attempts_leave_no_cell Compression.plain
    Compression.inverts_plain keccakSite smallScope keccak_spread calls
    within⟩

end EntityStore

end SlotStorage
