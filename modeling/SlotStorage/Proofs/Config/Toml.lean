import SlotStorage.Config.Toml
import SlotStorage.Proofs.Json.RoundTrip
import SlotStorage.Proofs.Text.Hex
import SlotStorage.Proofs.Toml.Lines

/-!
# Configurations survive TOML

The written form of a configuration is read back as the configuration, valid
or not; only then is it checked.  So reading gives the configuration if it is
valid, and otherwise the complaint of the check.
-/

namespace SlotStorage

open Toml

namespace Config

/-! ## Values -/

theorem isSimple_digit : ∀ value < 16, isSimple (Hex.digit value) = true := by
  decide

theorem isSimple_of_mem_encode {bytes : Bytes} {char : Char}
    (member : char ∈ Hex.encode bytes) : isSimple char = true := by
  obtain ⟨byte, _, member⟩ := List.mem_flatMap.mp member
  have small : byte.toNat < 256 := byte.toNat_lt
  have digits : char = Hex.digit (byte.toNat / 16) ∨
      char = Hex.digit (byte.toNat % 16) := by
    simpa [Hex.encodeByte] using member
  obtain rfl | rfl := digits
  · exact isSimple_digit _ (by omega)
  · exact isSimple_digit _ (by omega)

/-- What is written between the quotes for a namespace. -/
def spaceText (space : Namespace) : List Char :=
  '0' :: 'x' :: Hex.encode (Octets.toBytes space.address)

theorem toList_display (space : Namespace) :
    space.display.toList = spaceText space := by
  simp [Namespace.display, Octets.display, Octets.toHex, spaceText]

theorem writes_space (space : Namespace) :
    Writes (inQuotes (spaceText space)) (.string (spaceText space)) := by
  apply writes_text
  · intro char member
    obtain rfl | member := List.mem_cons.mp member
    · rfl
    obtain rfl | member := List.mem_cons.mp member
    · rfl
    exact isSimple_of_mem_encode member
  · exact List.cons_ne_nil _ _

theorem writes_hash (algorithm : HashAlgorithm) :
    Writes (inQuotes algorithm.keyword.toList)
      (.string algorithm.keyword.toList) := by
  apply writes_text
  · cases algorithm <;> exact List.all_eq_true.mp rfl
  · cases algorithm <;> exact List.cons_ne_nil _ _

theorem writes_codec (codec : CodecKind) :
    Writes (inQuotes codec.keyword.toList)
      (.string codec.keyword.toList) := by
  apply writes_text
  · cases codec <;> exact List.all_eq_true.mp rfl
  · cases codec <;> exact List.cons_ne_nil _ _

theorem writes_level (level : Int32) :
    Writes (toString level.toInt).toList (.integer level.toInt) := by
  have least := level.le_toInt
  have most := level.toInt_lt
  apply writes_integer
  omega

/-! ## The document -/

/-- The lines of a written configuration. -/
def tomlLines (config : Config) : List (List Char) :=
  [assignmentLine "hash".toList (inQuotes config.hash.keyword.toList),
    assignmentLine "storage_namespace".toList
      (inQuotes (spaceText config.storage)),
    assignmentLine "registry_namespace".toList
      (inQuotes (spaceText config.registry)),
    [],
    headerLine "records".toList,
    assignmentLine "codec".toList
      (inQuotes config.records.codec.keyword.toList),
    assignmentLine "zstd_level".toList
      (toString config.records.zstdLevel.toInt).toList]

theorem toList_toToml (config : Config) :
    config.toToml.toList =
      config.tomlLines.foldr (fun line rest => line ++ '\n' :: rest) [] := by
  have hash : "hash = \"".toList = "hash".toList ++ [' ', '=', ' ', '"'] := rfl
  have storage : "storage_namespace = \"".toList =
      "storage_namespace".toList ++ [' ', '=', ' ', '"'] := rfl
  have registry : "registry_namespace = \"".toList =
      "registry_namespace".toList ++ [' ', '=', ' ', '"'] := rfl
  have records : "\n[records]\n".toList =
      '\n' :: '[' :: ("records".toList ++ [']', '\n']) := rfl
  have codec : "codec = \"".toList =
      "codec".toList ++ [' ', '=', ' ', '"'] := rfl
  have level : "zstd_level = ".toList =
      "zstd_level".toList ++ [' ', '=', ' '] := rfl
  have quote : "\"\n".toList = ['"', '\n'] := rfl
  have ending : "\n".toList = ['\n'] := rfl
  -- With the literals given as lists, only associativity is left.
  unfold toToml
  simp only [String.toList_append, hash, storage, registry, records, codec,
    level, quote, ending, toList_display, tomlLines, List.foldr_cons,
    List.foldr_nil, assignmentLine, headerLine, inQuotes, List.append_assoc,
    List.cons_append, List.nil_append]

/-- The statements of a written configuration. -/
def tomlStatements (config : Config) : List Statement :=
  [.assignment ["hash".toList] (.string config.hash.keyword.toList),
    .assignment ["storage_namespace".toList]
      (.string (spaceText config.storage)),
    .assignment ["registry_namespace".toList]
      (.string (spaceText config.registry)),
    .table ["records".toList],
    .assignment ["codec".toList] (.string config.records.codec.keyword.toList),
    .assignment ["zstd_level".toList] (.integer config.records.zstdLevel.toInt)]

theorem lines_toToml (config : Config) :
    Lines config.toToml.toList config.tomlStatements := by
  rw [toList_toToml]
  have hash : Bare "hash".toList := ⟨List.cons_ne_nil _ _, rfl⟩
  have storage : Bare "storage_namespace".toList := ⟨List.cons_ne_nil _ _, rfl⟩
  have registry : Bare "registry_namespace".toList :=
    ⟨List.cons_ne_nil _ _, rfl⟩
  have records : Bare "records".toList := ⟨List.cons_ne_nil _ _, rfl⟩
  have codec : Bare "codec".toList := ⟨List.cons_ne_nil _ _, rfl⟩
  have level : Bare "zstd_level".toList := ⟨List.cons_ne_nil _ _, rfl⟩
  exact .cons (.assignment hash (writes_hash config.hash))
    (.cons (.assignment storage (writes_space config.storage))
      (.cons (.assignment registry (writes_space config.registry))
        (.cons .empty
          (.cons (.header records)
            (.cons (.assignment codec (writes_codec config.records.codec))
              (.cons (.assignment level (writes_level config.records.zstdLevel))
                .nil))))))

end Config

/-- The inner table of a written configuration. -/
def RecordsConfig.tomlEntries (records : RecordsConfig) : Toml.Entries :=
  [("codec".toList, .string records.codec.keyword.toList),
    ("zstd_level".toList, .integer records.zstdLevel.toInt)]

namespace Config

/-- The table of a written configuration. -/
def tomlEntries (config : Config) : Toml.Entries :=
  [("hash".toList, .string config.hash.keyword.toList),
    ("storage_namespace".toList, .string (spaceText config.storage)),
    ("registry_namespace".toList, .string (spaceText config.registry)),
    ("records".toList, .table .header config.records.tomlEntries)]

theorem ofStatements?_tomlStatements (config : Config) :
    ofStatements? config.tomlStatements = some config.tomlEntries :=
  rfl

theorem parse?_toToml (config : Config) :
    Toml.parse? config.toToml = some config.tomlEntries := by
  have unmarked : dropEncodingMark config.toToml.toList =
      config.toToml.toList := by
    rw [toList_toToml]
    rfl
  rw [Toml.parse?, unmarked, config.lines_toToml.reads]
  exact config.ofStatements?_tomlStatements

/-! ## Reading the fields -/

theorem choice?_keyword {α : Type} {named? : String → Option α}
    {name : String} {value : α} (named : named? name = some value) :
    choice? named? (.string name.toList) = some value := by
  rw [choice?, String.ofList_toList]
  exact named

theorem reads_spaceText (space : Namespace) :
    Toml.namespace? (.string (spaceText space)) = some space := by
  have number := Octets.ofDocumentText?_encode space.address
  rw [namespace?, octets?, spaceText, number]
  rfl

theorem int32?_level (level : Int32) :
    int32? (.integer level.toInt) = some level := by
  rw [int32?, if_pos ⟨level.le_toInt, level.toInt_lt⟩, Int32.ofInt_toInt]

theorem records?_tomlRecords (records : RecordsConfig) :
    records? (.table .header records.tomlEntries) = some records := by
  have codec : (Fields.named records.tomlEntries).get? 0 "codec"
      (choice? CodecKind.ofKeyword?) (default : RecordsConfig).codec =
      some records.codec :=
    choice?_keyword records.codec.ofKeyword?_keyword
  have level : (Fields.named records.tomlEntries).get? 1 "zstd_level" int32?
      (default : RecordsConfig).zstdLevel = some records.zstdLevel :=
    int32?_level records.zstdLevel
  simp only [records?, Fields.ofValue?, codec, level, bind, Option.bind, pure]

theorem config?_tomlEntries (config : Config) :
    config? config.tomlEntries = some config := by
  have hash : (Fields.named config.tomlEntries).get? 0 "hash"
      (choice? HashAlgorithm.ofKeyword?) (default : Config).hash =
      some config.hash :=
    choice?_keyword config.hash.ofKeyword?_keyword
  have storage : (Fields.named config.tomlEntries).get? 1 "storage_namespace"
      Toml.namespace? (default : Config).storage = some config.storage :=
    reads_spaceText config.storage
  have registry : (Fields.named config.tomlEntries).get? 2
      "registry_namespace" Toml.namespace? (default : Config).registry =
      some config.registry :=
    reads_spaceText config.registry
  have records : (Fields.named config.tomlEntries).get? 3 "records" records?
      (default : Config).records = some config.records :=
    records?_tomlRecords config.records
  simp only [config?, hash, storage, registry, records, bind, Option.bind, pure]

/-! ## Reading and checking -/

theorem ofToml_eq_ok {text : String} {config : Config}
    (read : ofToml text = .ok config) : config.validate = .ok () := by
  unfold ofToml at read
  split at read
  · cases read
  · split at read
    · rename_i valid
      cases read
      exact valid
    · cases read

/-- A written configuration is read back if it is valid, and refused for the
reason for which it is not; and whatever is read is valid. -/
theorem toml_round_trip (config : Config) :
    ofToml config.toToml = config.validate.map (fun _ => config) ∧
      ∀ text found, ofToml text = .ok found → found.validate = .ok () := by
  refine ⟨?_, fun text found => ofToml_eq_ok⟩
  have read : (Toml.parse? config.toToml).bind config? = some config := by
    rw [parse?_toToml]
    exact config?_tomlEntries config
  cases valid : config.validate with
  | ok => simp only [ofToml, read, valid, Except.map]
  | error cause => simp only [ofToml, read, valid, Except.map]

/-- The lowest level there is can be written, but is not valid; the lowest
valid one can be read. -/
theorem toml_round_trip_levels :
    let written : Config := { (default : Config) with
      records := ⟨.zstd, -2147483648⟩ }
    let found : Config := { (default : Config) with
      records := ⟨.zstd, -131072⟩ }
    let text := "records.zstd_level = -131_072 # low"
    ofToml written.toToml = .error (.levelOutside (-2147483648)) ∧
      ofToml text = .ok found ∧ found.validate = .ok () := by
  intro written found text
  have table : (Toml.parse? text).bind config? = some found := by
    decide +kernel
  have read : ofToml text = .ok found := by
    rw [ofToml, table]
    rfl
  have survives := toml_round_trip written
  exact ⟨survives.1, read, survives.2 text found read⟩

end Config

end SlotStorage
