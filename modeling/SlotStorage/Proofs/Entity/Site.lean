import Mathlib.Data.Finset.Card
import Mathlib.Data.Set.Function
import SlotStorage.Entity.Store
import SlotStorage.Proofs.Layout.Set
import SlotStorage.Proofs.Record.Store

/-!
# Where entities are kept

The cells of an entity store fall into parts: the record of every key, the
registry and the expiry set of every block.  A role names a cell by its part
and its place there.  The hash function scatters the parts; all that the
operations need is that cells of different roles are different.
-/

namespace SlotStorage

theorem EntityKey.word_injective : Function.Injective EntityKey.word := by
  rintro ⟨left⟩ ⟨right⟩ rfl
  rfl

namespace EntityStore

/-- What entity stores that differ in their codecs only have in common. -/
structure Site where
  hasher : Hasher
  storage : Namespace
  registry : Namespace

/-- The keys and blocks that are in use, and how many cells the longest frame
takes up after its head. -/
structure Scope where
  keys : Finset EntityKey
  blocks : Finset UInt64
  dataCells : Nat

/-- The sets of keys that an entity store has. -/
inductive SetName where
  | registry
  | due (block : UInt64)
  deriving DecidableEq

/-- The parts of the storage that change on their own. -/
inductive Part where
  | record (key : EntityKey)
  | set (name : SetName)
  deriving DecidableEq

/-- What a cell is for.  The place zero of a set is its length. -/
inductive Role where
  | record (key : EntityKey) (offset : Nat)
  | element (name : SetName) (place : Nat)
  | position (name : SetName) (key : EntityKey)
  deriving DecidableEq

namespace Scope

/-- The words of the keys in use. -/
def words (scope : Scope) : Finset Word :=
  scope.keys.map ⟨EntityKey.word, EntityKey.word_injective⟩

theorem mem_words {scope : Scope} {key : EntityKey} :
    key.word ∈ scope.words ↔ key ∈ scope.keys :=
  Finset.mem_map' _

theorem card_words (scope : Scope) : scope.words.card = scope.keys.card :=
  Finset.card_map _

end Scope

/-- The set is the registry or belongs to a block in use. -/
def SetName.Within (scope : Scope) : SetName → Prop
  | .registry => True
  | .due block => block ∈ scope.blocks

/-- The part belongs to a key in use or is a set in use. -/
def Part.Within (scope : Scope) : Part → Prop
  | .record key => key ∈ scope.keys
  | .set name => name.Within scope

theorem SetName.Within.part {scope : Scope} {name : SetName}
    (within : name.Within scope) : (Part.set name).Within scope :=
  within

namespace Role

/-- The part that a cell belongs to. -/
def part : Role → Part
  | .record key _ => .record key
  | .element name _ | .position name _ => .set name

/-- The cell may be used for the keys and blocks in use. -/
def Within (scope : Scope) : Role → Prop
  | .record key offset => key ∈ scope.keys ∧ offset ≤ scope.dataCells
  | .element name place => name.Within scope ∧ place ≤ scope.keys.card
  | .position name key => name.Within scope ∧ key ∈ scope.keys

end Role

namespace Site

/-- The entity store that writes records with a codec. -/
def store (site : Site) (codec : RecordCodec) : EntityStore :=
  EntityStore.build site.hasher site.storage site.registry codec

/-- The blob of a key's record. -/
def blob (site : Site) (key : EntityKey) : Blob :=
  ⟨site.storage, (Domain.entityRecords site.hasher).slot key.toBytes⟩

/-- The set with a name. -/
def set (site : Site) : SetName → EnumerableSet
  | .registry => EnumerableSet.ofKey site.hasher site.registry
      (Domain.registryKey site.hasher)
  | .due block => EnumerableSet.ofKey site.hasher site.storage
      (Domain.expiryKey site.hasher block)

/-- The cell that has a role. -/
def cell (site : Site) : Role → Cell
  | .record key offset => (site.blob key).cell offset
  | .element name place => (site.set name).members.lengthCell.shift place
  | .position name key => (site.set name).positionCell key.word

/-- The cells of a part. -/
def area (site : Site) (scope : Scope) : Part → Set Cell
  | .record key => (site.blob key).area (scope.dataCells + 1)
  | .set name => (site.set name).area scope.words scope.keys.card

/-- No two roles share a cell, and no part runs past the last slot. -/
structure Spread (site : Site) (scope : Scope) : Prop where
  injective : Set.InjOn site.cell {role | role.Within scope}
  records : ∀ key ∈ scope.keys, (site.blob key).Fits (scope.dataCells + 1)
  sets : ∀ name : SetName, name.Within scope →
    (site.set name).members.Fits scope.keys.card

variable {site : Site} {scope : Scope}

theorem exists_role {part : Part} (within : part.Within scope) {cell : Cell}
    (inside : cell ∈ site.area scope part) :
    ∃ role, role.Within scope ∧ role.part = part ∧ site.cell role = cell := by
  cases part with
  | record key =>
      obtain ⟨offset, small, rfl⟩ := inside
      exact ⟨.record key offset, ⟨within, Nat.le_of_lt_succ small⟩, rfl, rfl⟩
  | set name =>
      rcases inside with ⟨place, small, rfl⟩ | ⟨word, known, rfl⟩
      · exact ⟨.element name place, ⟨within, Nat.le_of_lt_succ small⟩, rfl,
          rfl⟩
      · exact ⟨.position name ⟨word⟩,
          ⟨within, Scope.mem_words.mp known⟩, rfl, rfl⟩

theorem Spread.role_eq (spread : site.Spread scope) {left right : Role}
    (leftWithin : left.Within scope) (rightWithin : right.Within scope)
    (shared : site.cell left = site.cell right) : left = right :=
  spread.injective leftWithin rightWithin shared

/-- Different parts have no cell in common. -/
theorem Spread.apart (spread : site.Spread scope) {left right : Part}
    (leftWithin : left.Within scope) (rightWithin : right.Within scope)
    (different : left ≠ right) {cell : Cell}
    (inside : cell ∈ site.area scope left) :
    cell ∉ site.area scope right := by
  intro shared
  obtain ⟨leftRole, leftIn, rfl, leftCell⟩ := exists_role leftWithin inside
  obtain ⟨rightRole, rightIn, rfl, rightCell⟩ := exists_role rightWithin shared
  have same := spread.role_eq leftIn rightIn (leftCell.trans rightCell.symm)
  exact different (congrArg Role.part same)

theorem Spread.separate (spread : site.Spread scope) {name : SetName}
    (within : name.Within scope) :
    (site.set name).Separate scope.words scope.keys.card := by
  refine ⟨spread.sets name within, ?_, ?_⟩
  · intro left leftKnown right rightKnown shared
    have leftWithin : (Role.position name ⟨left⟩).Within scope :=
      ⟨within, Scope.mem_words.mp leftKnown⟩
    have rightWithin : (Role.position name ⟨right⟩).Within scope :=
      ⟨within, Scope.mem_words.mp rightKnown⟩
    have same := spread.role_eq leftWithin rightWithin shared
    injection same with _ same
    injection same
  · rintro word known ⟨place, small, shared⟩
    have positionWithin : (Role.position name ⟨word⟩).Within scope :=
      ⟨within, Scope.mem_words.mp known⟩
    have elementWithin : (Role.element name place).Within scope :=
      ⟨within, Nat.le_of_lt_succ small⟩
    have same := spread.role_eq positionWithin elementWithin shared
    cases same

/-- The roles for listed keys and blocks. -/
def roles (keys : List EntityKey) (blocks : List UInt64)
    (dataCells : Nat) : List Role :=
  (keys.flatMap fun key =>
    (List.range (dataCells + 1)).map (Role.record key)) ++
  (SetName.registry :: blocks.map SetName.due).flatMap fun name =>
    (List.range (keys.length + 1)).map (Role.element name) ++
      keys.map (Role.position name)

theorem mem_roles {keys : List EntityKey} {blocks : List UInt64}
    {dataCells : Nat} {role : Role}
    (within : role.Within ⟨keys.toFinset, blocks.toFinset, dataCells⟩) :
    role ∈ roles keys blocks dataCells := by
  have named : ∀ name : SetName,
      name.Within ⟨keys.toFinset, blocks.toFinset, dataCells⟩ →
        name ∈ SetName.registry :: blocks.map SetName.due := by
    intro name nameWithin
    cases name with
    | registry => exact List.mem_cons_self
    | due block =>
        exact List.mem_cons_of_mem _
          (List.mem_map_of_mem (List.mem_toFinset.mp nameWithin))
  unfold roles
  cases role with
  | record key offset =>
      obtain ⟨known, small⟩ := within
      apply List.mem_append_left
      apply List.mem_flatMap.mpr
      exact ⟨key, List.mem_toFinset.mp known, List.mem_map_of_mem
        (List.mem_range.mpr (Nat.lt_succ_of_le small))⟩
  | element name place =>
      have counted := keys.toFinset_card_le
      have small : place < keys.length + 1 :=
        Nat.lt_succ_of_le (within.2.trans counted)
      apply List.mem_append_right
      apply List.mem_flatMap.mpr
      exact ⟨name, named name within.1, List.mem_append_left _
        (List.mem_map_of_mem (List.mem_range.mpr small))⟩
  | position name key =>
      apply List.mem_append_right
      apply List.mem_flatMap.mpr
      exact ⟨name, named name within.1, List.mem_append_right _
        (List.mem_map_of_mem (List.mem_toFinset.mp within.2))⟩

/-- For listed keys and blocks the assumption can be checked. -/
theorem spread_of_nodup {keys : List EntityKey} {blocks : List UInt64}
    {dataCells : Nat}
    (distinct : ((roles keys blocks dataCells).map site.cell).Nodup)
    (records : ∀ key ∈ keys, (site.blob key).key.Reaches dataCells)
    (sets : ∀ name ∈ SetName.registry :: blocks.map SetName.due,
      (site.set name).members.base.Reaches keys.length)
    (few : keys.length < Word.countBound) :
    site.Spread ⟨keys.toFinset, blocks.toFinset, dataCells⟩ := by
  have counted := keys.toFinset_card_le
  refine ⟨?_, ?_, ?_⟩
  · intro left leftWithin right rightWithin shared
    exact List.inj_on_of_nodup_map distinct (mem_roles leftWithin)
      (mem_roles rightWithin) shared
  · intro key known offset within
    exact (records key (List.mem_toFinset.mp known)).mono
      (Nat.le_of_lt_succ within)
  · intro name within
    refine ⟨?_, Nat.lt_of_le_of_lt counted few⟩
    apply Slot.Reaches.mono _ counted
    apply sets
    cases name with
    | registry => exact List.mem_cons_self
    | due block =>
        exact List.mem_cons_of_mem _
          (List.mem_map_of_mem (List.mem_toFinset.mp within))

end Site

end EntityStore

end SlotStorage
