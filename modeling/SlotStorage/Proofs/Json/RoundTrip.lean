import SlotStorage.Config.Json
import SlotStorage.Proofs.Json.Rows
import SlotStorage.Record.Json

/-!
# Documents are read back

The document that is written for a value is read as the value: for addresses,
names of algorithms, configurations and metadata.  A text that is read as an
address on its own is read as the same address where a document holds it.
-/

namespace SlotStorage

theorem HashAlgorithm.ofKeyword?_keyword (algorithm : HashAlgorithm) :
    ofKeyword? algorithm.keyword = some algorithm := by
  cases algorithm <;> rfl

theorem CodecKind.ofKeyword?_keyword (codec : CodecKind) :
    ofKeyword? codec.keyword = some codec := by
  cases codec <;> rfl

namespace Json

open Reader

variable {α : Type}

/-! ## Structures -/

theorem slot_readsBack (value : Slot) :
    ReadsBack slot (writeOctets value.word) value :=
  (octets_readsBack value.word).map fun rest => .pure value rest

theorem space_readsBack (value : Namespace) :
    ReadsBack space (writeOctets value.address) value :=
  (octets_readsBack value.address).map fun rest => .pure value rest

theorem entityKey_readsBack (value : EntityKey) :
    ReadsBack entityKey (writeOctets value.word) value :=
  (octets_readsBack value.word).map fun rest => .pure value rest

theorem hashAlgorithm_readsBack (algorithm : HashAlgorithm) :
    ReadsBack hashAlgorithm (writeString algorithm.keyword) algorithm :=
  choice_readsBack algorithm.ofKeyword?_keyword

theorem codecKind_readsBack (codec : CodecKind) :
    ReadsBack codecKind (writeString codec.keyword) codec :=
  choice_readsBack codec.ofKeyword?_keyword

theorem records_readsBack (value : RecordsConfig) :
    ReadsBack records (writeRecords value) value := by
  have codec := codecKind_readsBack value.codec
  have level := int32_readsBack value.zstdLevel
  have gathers : Gathers RecordsParts.member {}
      [("codec", writeString value.codec.keyword),
        ("zstd_level", writeInteger value.zstdLevel.toInt)]
      ⟨some value.codec, some value.zstdLevel⟩ :=
    .cons codec.filled (.cons level.filled (.nil _))
  apply ReadsBack.unplaced
  exact (object_readsBack gathers).map fun rest => .pure value rest

theorem config_readsBack (value : Config) :
    ReadsBack config (writeConfig value) value := by
  have hash := hashAlgorithm_readsBack value.hash
  have storage := space_readsBack value.storage
  have registry := space_readsBack value.registry
  have inner := records_readsBack value.records
  have gathers : Gathers ConfigParts.member {}
      [("hash", writeString value.hash.keyword),
        ("storage_namespace", writeOctets value.storage.address),
        ("registry_namespace", writeOctets value.registry.address),
        ("records", writeRecords value.records)]
      ⟨some value.hash, some value.storage, some value.registry,
        some value.records⟩ :=
    .cons hash.filled (.cons storage.filled
      (.cons registry.filled (.cons inner.filled (.nil _))))
  apply ReadsBack.unplaced
  exact (object_readsBack gathers).map fun rest => .pure value rest

theorem keyed_readsBack {reader : Reader α} {write : α → List Char}
    (entry : Keyed α)
    (back : ReadsBack reader (write entry.value) entry.value) :
    ReadsBack (keyed reader) (writeKeyed write entry) entry := by
  have key := string_readsBack entry.key
  have gathers : Gathers (KeyedParts.member reader) {}
      [("key", writeString entry.key), ("value", write entry.value)]
      ⟨some entry.key, some entry.value⟩ :=
    .cons key.filled (.cons back.filled (.nil _))
  apply ReadsBack.unplaced
  exact (object_readsBack gathers).map fun rest => .pure entry rest

theorem metadata_readsBack (value : Metadata) :
    ReadsBack metadata (writeMetadata value) value := by
  have expiresAt := uint64_readsBack value.expiresAt
  have strings : ReadsBack (array (keyed string))
      (writeArray (value.stringAnnotations.map (writeKeyed writeString)))
      value.stringAnnotations :=
    array_readsBack fun entry _ =>
      keyed_readsBack entry (string_readsBack entry.value)
  have numbers : ReadsBack (array (keyed uint64))
      (writeArray (value.numericAnnotations.map
        (writeKeyed fun number => writeNatural number.toNat)))
      value.numericAnnotations :=
    array_readsBack fun entry _ =>
      keyed_readsBack entry (uint64_readsBack entry.value)
  have owner := octets_readsBack value.owner
  have gathers : Gathers MetadataParts.member {}
      [("expires_at_block", writeNatural value.expiresAt.toNat),
        ("string_annotations",
          writeArray (value.stringAnnotations.map (writeKeyed writeString))),
        ("numeric_annotations",
          writeArray (value.numericAnnotations.map
            (writeKeyed fun number => writeNatural number.toNat))),
        ("owner", writeOctets value.owner)]
      ⟨some value.expiresAt, some value.stringAnnotations,
        some value.numericAnnotations, some value.owner⟩ :=
    .cons expiresAt.filled (.cons strings.filled
      (.cons numbers.filled (.cons owner.filled (.nil _))))
  apply ReadsBack.unplaced
  exact (object_readsBack gathers).map fun rest => .pure value rest

/-! ## Addresses in documents -/

/-- Where a text can be read, a number can be read that the text spells. -/
theorem reads_octets {width : Nat} {chars spelled rest : List Char}
    {number : Octets width} (reads : Reads text chars spelled rest)
    (spells : Octets.ofDocumentText? width spelled = some number) :
    Reads (octets width) chars number rest := by
  obtain ⟨_, between, marked, body⟩ := reads.exists_of_bind
  obtain ⟨_, solid, skipped, quoted⟩ := marked.exists_of_bind
  cases quoted.eq_cons_of_expect
  apply (skipped.bind (reads_peek '"' between)).bind
  apply ((reads_mark rfl between).bind body).bind
  exact reads_require spells rest

theorem parse?_octets_of_parse {width : Nat} {make : Octets width → α}
    {text document : String} {value : α}
    (parsed : (Octets.parse width text).map make = .ok value)
    (spells : parse? string document = some text) :
    parse? (do return make (← octets width)) document = some value := by
  obtain ⟨rest, reads, ended⟩ := parse?_eq_some.mp spells
  obtain ⟨spelled, _, first, second⟩ := reads.exists_of_bind
  cases second
  cases found : Octets.parse width (String.ofList spelled) with
  | error cause =>
      rw [found] at parsed
      cases parsed
  | ok number =>
      rw [found] at parsed
      cases parsed
      have spells := Octets.ofDocumentText?_of_parse found
      rw [String.toList_ofList] at spells
      exact parse?_eq_some.mpr
        ⟨rest, (reads_octets first spells).bind (.pure _ rest), ended⟩

/-- What is written for a value is read as the value. -/
def RoundTrips (reader : Reader α) (write : α → List Char) : Prop :=
  ∀ value, parse? reader (String.ofList (write value)) = some value

/-- A text that is parsed on its own is read as the same value from every
document that spells the text. -/
def ReadsParsed (reader : Reader α)
    (parse : String → Except HexTextError α) : Prop :=
  ∀ text value, parse text = .ok value →
    ∀ document, parse? string document = some text →
      parse? reader document = some value

/-- Every document is read back, and where a document spells a text that is
parsed as an address, the address is read. -/
theorem documents_read_back :
    (RoundTrips string writeString ∧
      RoundTrips slot (fun value => writeOctets value.word) ∧
      RoundTrips space (fun value => writeOctets value.address) ∧
      RoundTrips entityKey (fun value => writeOctets value.word) ∧
      RoundTrips hashAlgorithm (fun value => writeString value.keyword) ∧
      RoundTrips codecKind (fun value => writeString value.keyword) ∧
      RoundTrips config writeConfig ∧
      RoundTrips metadata writeMetadata) ∧
    ReadsParsed slot Slot.parse ∧
    ReadsParsed space Namespace.parse ∧
    ReadsParsed entityKey EntityKey.parse := by
  refine ⟨⟨?string, ?slot, ?space, ?entityKey, ?hash, ?codec, ?config,
    ?metadata⟩, ?slots, ?spaces, ?entityKeys⟩
  case string => exact fun value => (string_readsBack value).parse?
  case slot => exact fun value => (slot_readsBack value).parse?
  case space => exact fun value => (space_readsBack value).parse?
  case entityKey => exact fun value => (entityKey_readsBack value).parse?
  case hash => exact fun value => (hashAlgorithm_readsBack value).parse?
  case codec => exact fun value => (codecKind_readsBack value).parse?
  case config => exact fun value => (config_readsBack value).parse?
  case metadata => exact fun value => (metadata_readsBack value).parse?
  case slots => exact fun _ _ parsed _ => parse?_octets_of_parse parsed
  case spaces => exact fun _ _ parsed _ => parse?_octets_of_parse parsed
  case entityKeys => exact fun _ _ parsed _ => parse?_octets_of_parse parsed

/-- Without a mark, and with escapes and digits of both cases. -/
theorem documents_read_back_unmarked :
    Namespace.parse "00000000000000000000000000000000600DcafE" =
        .ok ⟨0x600DCAFE#160⟩ ∧
      parse? space " \"00000000000000000000000000000000600Dcaf\\u0045\" " =
        some ⟨0x600DCAFE#160⟩ := by
  have parsed : Namespace.parse "00000000000000000000000000000000600DcafE" =
      .ok ⟨0x600DCAFE#160⟩ := rfl
  exact ⟨parsed, documents_read_back.2.2.1 _ _ parsed _ rfl⟩

end Json

end SlotStorage
