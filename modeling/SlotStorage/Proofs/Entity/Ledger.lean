import Mathlib.Data.Set.Card
import SlotStorage.Proofs.Entity.Site

/-!
# Ledgers

A ledger tells the record of every key and the keys in every set.  The storage
keeps a ledger when every part tells what the ledger has for it and all other
cells are empty.  Each step of an operation changes one part, and so one entry
of the ledger; between the steps of an operation the entries need not agree.
While a step is on its way, the other parts still tell what they did.
-/

namespace SlotStorage

namespace EntityStore

/-- The record of every key and the keys in every set. -/
@[ext] structure Ledger where
  record : EntityKey → Option Metadata
  members : SetName → Set EntityKey

namespace Ledger

/-- The ledger with another record of a key. -/
def setRecord (ledger : Ledger) (key : EntityKey)
    (record : Option Metadata) : Ledger :=
  { ledger with record := Function.update ledger.record key record }

/-- The ledger with other keys in a set. -/
def setMembers (ledger : Ledger) (name : SetName) (keys : Set EntityKey) :
    Ledger :=
  { ledger with members := Function.update ledger.members name keys }

/-- The ledger without the record of a key and without its registration. -/
def forget (ledger : Ledger) (key : EntityKey) : Ledger :=
  (ledger.setRecord key none).setMembers .registry
    (ledger.members .registry \ {key})

variable (ledger : Ledger)

theorem setRecord_same (key : EntityKey) (record : Option Metadata) :
    (ledger.setRecord key record).record key = record :=
  Function.update_self _ _ _

theorem setRecord_other {key other : EntityKey} (different : other ≠ key)
    (record : Option Metadata) :
    (ledger.setRecord key record).record other = ledger.record other :=
  Function.update_of_ne different _ _

theorem setMembers_same (name : SetName) (keys : Set EntityKey) :
    (ledger.setMembers name keys).members name = keys :=
  Function.update_self _ _ _

theorem setMembers_other {name other : SetName} (different : other ≠ name)
    (keys : Set EntityKey) :
    (ledger.setMembers name keys).members other = ledger.members other :=
  Function.update_of_ne different _ _

theorem setMembers_self (name : SetName) :
    ledger.setMembers name (ledger.members name) = ledger := by
  rw [setMembers, Function.update_eq_self]

theorem foldl_forget_record (keys : List EntityKey) (key : EntityKey) :
    (keys.foldl forget ledger).record key =
      if key ∈ keys then none else ledger.record key := by
  induction keys generalizing ledger with
  | nil => rfl
  | cons first keys induction =>
      rw [List.foldl_cons, induction]
      change (if key ∈ keys then none
        else Function.update ledger.record first none key) = _
      by_cases here : key = first
      · simp [here]
      · simp [here]

theorem foldl_forget_registry (keys : List EntityKey) :
    (keys.foldl forget ledger).members .registry =
      {key | key ∈ ledger.members .registry ∧ key ∉ keys} := by
  induction keys generalizing ledger with
  | nil => simp
  | cons first keys induction =>
      rw [List.foldl_cons, induction, forget, setMembers_same]
      ext key
      simp [and_assoc, not_or]

theorem foldl_forget_due (keys : List EntityKey) (block : UInt64) :
    (keys.foldl forget ledger).members (.due block) =
      ledger.members (.due block) := by
  induction keys generalizing ledger with
  | nil => rfl
  | cons first keys induction =>
      rw [List.foldl_cons, induction, forget, setMembers_other _ (by simp)]
      rfl

end Ledger

/-- The list has the words of exactly the given keys, each of them once. -/
structure Spells (scope : Scope) (list : List Word) (keys : Set EntityKey) :
    Prop where
  nodup : list.Nodup
  known : ∀ value ∈ list, value ∈ scope.words
  members : ∀ key : EntityKey, key.word ∈ list ↔ key ∈ keys

namespace Spells

variable {scope : Scope} {list : List Word} {keys : Set EntityKey}

theorem nodup_keys (spells : Spells scope list keys) :
    (EntityKey.ofWords list).Nodup := by
  apply spells.nodup.map
  intro left right same
  exact congrArg EntityKey.word same

theorem mem_keys (spells : Spells scope list keys) {key : EntityKey} :
    key ∈ EntityKey.ofWords list ↔ key ∈ keys := by
  rw [← spells.members key]
  constructor
  · intro member
    obtain ⟨word, inside, rfl⟩ := List.mem_map.mp member
    exact inside
  · intro inside
    exact List.mem_map.mpr ⟨key.word, inside, rfl⟩

theorem ncard (spells : Spells scope list keys) :
    keys.ncard = list.length := by
  have same : keys = {key | key ∈ EntityKey.ofWords list} := by
    ext key
    exact spells.mem_keys.symm
  rw [same, ← List.coe_toFinset, Set.ncard_coe_finset,
    List.toFinset_card_of_nodup spells.nodup_keys]
  exact List.length_map _

theorem finite (spells : Spells scope list keys) : keys.Finite := by
  apply (List.finite_toSet (EntityKey.ofWords list)).subset
  exact fun key member => spells.mem_keys.mpr member

theorem bounded (spells : Spells scope list keys) :
    list.length ≤ scope.keys.card := by
  rw [← scope.card_words, ← List.toFinset_card_of_nodup spells.nodup]
  apply Finset.card_le_card
  exact fun word member => spells.known word (List.mem_toFinset.mp member)

theorem empty (scope : Scope) : Spells scope [] ∅ :=
  ⟨List.nodup_nil, fun _ member => absurd member List.not_mem_nil,
    fun _ => ⟨fun member => absurd member List.not_mem_nil, False.elim⟩⟩

theorem removed (spells : Spells scope list keys) (key : EntityKey) :
    Spells scope (MemberList.swapRemove key.word list) (keys \ {key}) := by
  refine ⟨MemberList.nodup_swapRemove _ spells.nodup, ?_, ?_⟩
  · intro value member
    exact spells.known value
      ((MemberList.mem_swapRemove_iff spells.nodup).mp member).2
  · intro other
    rw [MemberList.mem_swapRemove_iff spells.nodup, spells.members other,
      Set.mem_sdiff, Set.mem_singleton_iff, and_comm, Ne,
      EntityKey.word_injective.eq_iff]

end Spells

namespace Site

/-- The set stands for a list of exactly the given keys. -/
def Lists (site : Site) (tidy : Prop) (scope : Scope) (name : SetName)
    (keys : Set EntityKey) (contents : Contents) : Prop :=
  ∃ list, (site.set name).Carries tidy scope.words scope.keys.card list
      contents ∧
    ∀ key : EntityKey, key.word ∈ list ↔ key ∈ keys

variable {site : Site} {tidy : Prop} {scope : Scope} {contents : Contents}
  {key : EntityKey} {name : SetName}

section Lists

variable {keys : Set EntityKey}
  (lists : site.Lists tidy scope name keys contents)
  (spread : site.Spread scope) (within : name.Within scope)

include lists spread within

theorem Lists.contains_runs (known : key ∈ scope.keys) :
    ∃ found, ((site.set name).contains key.word).Runs contents found
      contents ∧ (found = true ↔ key ∈ keys) := by
  obtain ⟨list, carries, listed⟩ := lists
  refine ⟨_, carries.runs_contains (spread.separate within)
    (Scope.mem_words.mpr known), ?_⟩
  rw [decide_eq_true_iff]
  exact listed key

/-- The members are listed without repetition, and counted. -/
theorem Lists.members_run :
    ∃ list, (site.set name).toList.Runs contents list contents ∧
      (site.set name).size.Runs contents keys.ncard contents ∧
      (site.set name).isEmpty.Runs contents (decide (keys.ncard = 0))
        contents ∧
      Spells scope list keys := by
  obtain ⟨list, carries, listed⟩ := lists
  have separate := spread.separate within
  have spells : Spells scope list keys :=
    ⟨carries.nodup, carries.known, listed⟩
  have none : decide (keys.ncard = 0) = decide (list = []) := by
    rw [spells.ncard, decide_eq_decide, List.length_eq_zero_iff]
  rw [none, spells.ncard]
  exact ⟨list, carries.runs_toList separate, carries.runs_size separate,
    carries.runs_isEmpty separate, spells⟩

end Lists

section Ledgers

variable [Compression]

/-- The part tells what the ledger has for it. -/
def Tells (site : Site) (tidy : Prop) (scope : Scope) (ledger : Ledger)
    (contents : Contents) : Part → Prop
  | .record key => (site.blob key).Keeps BinaryFormat.metadata
      (scope.dataCells + 1) (ledger.record key) contents
  | .set name => site.Lists tidy scope name (ledger.members name) contents

/-- All parts say what the ledger has for them, and there is nothing else but
words after the arrays of sets, unless the storage is tidy. -/
structure Keeps (site : Site) (tidy : Prop) (scope : Scope) (ledger : Ledger)
    (contents : Contents) : Prop where
  tells : ∀ part : Part, part.Within scope →
    site.Tells tidy scope ledger contents part
  blank : ∀ cell, (∀ part : Part, part.Within scope →
    cell ∉ site.area scope part) → contents cell = 0

/-- One part is in between, and the ledger is kept apart from it. -/
structure KeepsBut (site : Site) (tidy : Prop) (scope : Scope) (part : Part)
    (ledger : Ledger) (contents : Contents) : Prop where
  tells : ∀ other, other ≠ part → other.Within scope →
    site.Tells tidy scope ledger contents other
  blank : ∀ cell, (∀ part : Part, part.Within scope →
    cell ∉ site.area scope part) → contents cell = 0

variable {ledger : Ledger} {after : Contents} {part : Part}

theorem Tells.congr (tells : site.Tells tidy scope ledger contents part)
    (same : ∀ cell ∈ site.area scope part, after cell = contents cell) :
    site.Tells tidy scope ledger after part := by
  cases part with
  | record key => exact Blob.Keeps.congr tells same
  | set name =>
      obtain ⟨list, carries, listed⟩ := tells
      exact ⟨list, carries.congr same, listed⟩

theorem Tells.untidy (tells : site.Tells tidy scope ledger contents part) :
    site.Tells False scope ledger contents part := by
  cases part with
  | record key => exact tells
  | set name =>
      obtain ⟨list, carries, listed⟩ := tells
      exact ⟨list, carries.untidy, listed⟩

theorem Keeps.untidy (keeps : site.Keeps tidy scope ledger contents) :
    site.Keeps False scope ledger contents :=
  ⟨fun part within => (keeps.tells part within).untidy, keeps.blank⟩

theorem KeepsBut.untidy (keeps : site.KeepsBut tidy scope part ledger
    contents) : site.KeepsBut False scope part ledger contents :=
  ⟨fun other different within => (keeps.tells other different within).untidy,
    keeps.blank⟩

theorem Keeps.but (keeps : site.Keeps tidy scope ledger contents)
    (part : Part) : site.KeepsBut tidy scope part ledger contents :=
  ⟨fun other _ within => keeps.tells other within, keeps.blank⟩

/-- A change to one part does not matter to the others. -/
theorem KeepsBut.change
    (keeps : site.KeepsBut tidy scope part ledger contents)
    (spread : site.Spread scope) (within : part.Within scope)
    (same : contents.SameOff (site.area scope part) after) :
    site.KeepsBut tidy scope part ledger after := by
  constructor
  · intro other different otherWithin
    apply (keeps.tells other different otherWithin).congr
    intro cell inside
    exact same cell (spread.apart otherWithin within different inside)
  · intro cell outside
    rw [same cell (outside part within)]
    exact keeps.blank cell outside

theorem Keeps.change (keeps : site.Keeps tidy scope ledger contents)
    (spread : site.Spread scope) (within : part.Within scope)
    (same : contents.SameOff (site.area scope part) after) :
    site.KeepsBut tidy scope part ledger after :=
  (keeps.but part).change spread within same

/-- When a record is settled, it is in the ledger. -/
theorem KeepsBut.setRecord
    (keeps : site.KeepsBut tidy scope (.record key) ledger contents)
    {record : Option Metadata}
    (said : (site.blob key).Keeps BinaryFormat.metadata (scope.dataCells + 1)
      record contents) :
    site.Keeps tidy scope (ledger.setRecord key record) contents := by
  refine ⟨?_, keeps.blank⟩
  rintro (other | name) within
  · by_cases here : other = key
    · subst other
      rw [Tells, Ledger.setRecord_same]
      exact said
    · rw [Tells, Ledger.setRecord_other ledger here]
      exact keeps.tells (.record other) (by simpa using here) within
  · exact keeps.tells (.set name) (by simp) within

/-- When a set is settled, it is in the ledger. -/
theorem KeepsBut.setMembers
    (keeps : site.KeepsBut tidy scope (.set name) ledger contents)
    {keys : Set EntityKey} (said : site.Lists tidy scope name keys contents) :
    site.Keeps tidy scope (ledger.setMembers name keys) contents := by
  refine ⟨?_, keeps.blank⟩
  rintro (key | other) within
  · exact keeps.tells (.record key) (by simp) within
  · by_cases here : other = name
    · subst other
      rw [Tells, Ledger.setMembers_same]
      exact said
    · rw [Tells, Ledger.setMembers_other ledger here]
      exact keeps.tells (.set other) (by simpa using here) within

/-! ## Steps on records -/

section Records

variable (keeps : site.Keeps tidy scope ledger contents)
  (spread : site.Spread scope) (known : key ∈ scope.keys)

include keeps spread known

omit spread in
theorem blob_keeps (codec : RecordCodec) :
    ((site.store codec).records.blobFor key).Keeps BinaryFormat.metadata
      (scope.dataCells + 1) (ledger.record key) contents :=
  keeps.tells (.record key) known

theorem load_runs (codec : RecordCodec) :
    ((site.store codec).get key).Runs contents (ledger.record key)
      contents :=
  RecordStore.load_runs (blob_keeps keeps known codec)
    (spread.records key known)

theorem storeRecord_achieves (inverts : Compression.Inverts)
    (codec : RecordCodec) {record : Metadata}
    (encodable : record.Encodable)
    (holdable : Blob.Holdable (scope.dataCells + 1)
      ((site.store codec).records.frameOf BinaryFormat.metadata record)) :
    ((site.store codec).records.store BinaryFormat.metadata key
      record).Achieves Set.univ contents ()
        (site.Keeps tidy scope (ledger.setRecord key (some record))) := by
  obtain ⟨after, runs, same, said⟩ := RecordStore.store_achieves
    (blob_keeps keeps known codec) (spread.records key known) inverts
    (BinaryFormat.metadata_readsBack encodable) holdable
  exact ⟨after, runs, same.mono (Set.subset_univ _),
    (keeps.change spread (show (Part.record key).Within scope from known)
      same).setRecord said⟩

end Records

/-! ## Steps on sets -/

section Sets

variable (spread : site.Spread scope) (within : name.Within scope)

include spread within

theorem add_achieves (keeps : site.Keeps tidy scope ledger contents)
    (known : key ∈ scope.keys) :
    ∃ answer, ((site.set name).add key.word).Achieves Set.univ contents answer
      (site.Keeps tidy scope (ledger.setMembers name
        (insert key (ledger.members name)))) := by
  obtain ⟨list, carries, listed⟩ := keeps.tells (.set name) within
  have room : key.word ∉ list → list.length < scope.keys.card := by
    intro absent
    rw [← scope.card_words]
    exact MemberList.length_lt_card carries.nodup carries.known
      (Scope.mem_words.mpr known) absent
  obtain ⟨after, runs, same, added⟩ := carries.add_achieves
    (spread.separate within) (Scope.mem_words.mpr known) room
  refine ⟨_, after, runs, same.mono (Set.subset_univ _),
    (keeps.change spread within.part same).setMembers ⟨_, added, ?_⟩⟩
  intro other
  rw [MemberList.mem_insert_iff, listed other, Set.mem_insert_iff,
    EntityKey.word_injective.eq_iff]

theorem remove_achieves (keeps : site.Keeps tidy scope ledger contents)
    (known : key ∈ scope.keys) :
    ∃ answer, ((site.set name).remove key.word).Achieves Set.univ contents
      answer (site.Keeps tidy scope (ledger.setMembers name
        (ledger.members name \ {key}))) := by
  obtain ⟨list, carries, listed⟩ := keeps.tells (.set name) within
  have spells : Spells scope list (ledger.members name) :=
    ⟨carries.nodup, carries.known, listed⟩
  obtain ⟨after, runs, same, removed⟩ := carries.remove_achieves
    (spread.separate within) (Scope.mem_words.mpr known)
  exact ⟨_, after, runs, same.mono (Set.subset_univ _),
    (keeps.change spread within.part same).setMembers
      ⟨_, removed, (spells.removed key).members⟩⟩

end Sets

/-- Where all cells are empty, so is the ledger. -/
theorem keeps_empty (site : Site) (scope : Scope) :
    site.Keeps True scope ⟨fun _ => none, fun _ => ∅⟩ Contents.empty := by
  constructor
  · rintro (key | name) within
    · exact ⟨[], .of_empty (Nat.succ_pos _) (fun _ _ => rfl), rfl⟩
    · refine ⟨[], .of_empty (fun _ _ => rfl), ?_⟩
      exact fun key => ⟨fun member => absurd member List.not_mem_nil,
        False.elim⟩
  · exact fun cell _ => rfl

end Ledgers

end Site

end EntityStore

end SlotStorage
