import SlotStorage.Config.Basic
import SlotStorage.Json.Reader
import SlotStorage.Json.Writer

/-!
# Configurations as JSON

Reading does not validate.  Missing fields have their usual values, and a
repeated one is refused.
-/

namespace SlotStorage.Json

def hashAlgorithm : Reader HashAlgorithm :=
  choice HashAlgorithm.ofKeyword?

def codecKind : Reader CodecKind :=
  choice CodecKind.ofKeyword?

def slot : Reader Slot := do
  return ⟨← octets 32⟩

def space : Reader Namespace := do
  return ⟨← octets 20⟩

def entityKey : Reader EntityKey := do
  return ⟨← octets 32⟩

/-- The fields of how records are written, as far as they have been read. -/
structure RecordsParts where
  codec : Option CodecKind := none
  zstdLevel : Option Int32 := none

namespace RecordsParts

def member (parts : RecordsParts) (name : List Char) : Reader RecordsParts := do
  if name = "codec".toList then
    return { parts with codec := ← fill parts.codec codecKind }
  else if name = "zstd_level".toList then
    return { parts with zstdLevel := ← fill parts.zstdLevel int32 }
  else
    skip
    return parts

def placed : Reader RecordsParts := do
  mark '['
  let codec ← item? false codecKind
  let zstdLevel ← item? true int32
  mark ']'
  return ⟨codec, zstdLevel⟩

/-- The fields with the usual values for those that are missing. -/
def complete (parts : RecordsParts) : RecordsConfig :=
  ⟨parts.codec.getD (default : RecordsConfig).codec,
    parts.zstdLevel.getD (default : RecordsConfig).zstdLevel⟩

end RecordsParts

def records : Reader RecordsConfig := do
  if (← ahead) = some '[' then return (← RecordsParts.placed).complete
  else return (← object RecordsParts.member {}).complete

/-- The fields of a configuration, as far as they have been read. -/
structure ConfigParts where
  hash : Option HashAlgorithm := none
  storage : Option Namespace := none
  registry : Option Namespace := none
  records : Option RecordsConfig := none

namespace ConfigParts

def member (parts : ConfigParts) (name : List Char) : Reader ConfigParts := do
  if name = "hash".toList then
    return { parts with hash := ← fill parts.hash hashAlgorithm }
  else if name = "storage_namespace".toList then
    return { parts with storage := ← fill parts.storage space }
  else if name = "registry_namespace".toList then
    return { parts with registry := ← fill parts.registry space }
  else if name = "records".toList then
    return { parts with records := ← fill parts.records Json.records }
  else
    skip
    return parts

def placed : Reader ConfigParts := do
  mark '['
  let hash ← item? false hashAlgorithm
  let storage ← item? true space
  let registry ← item? true space
  let records ← item? true Json.records
  mark ']'
  return ⟨hash, storage, registry, records⟩

/-- The fields with the usual values for those that are missing. -/
def complete (parts : ConfigParts) : Config :=
  ⟨parts.hash.getD (default : Config).hash,
    parts.storage.getD (default : Config).storage,
    parts.registry.getD (default : Config).registry,
    parts.records.getD (default : Config).records⟩

end ConfigParts

def config : Reader Config := do
  if (← ahead) = some '[' then return (← ConfigParts.placed).complete
  else return (← object ConfigParts.member {}).complete

def writeRecords (records : RecordsConfig) : List Char :=
  writeObject [("codec", writeString records.codec.keyword),
    ("zstd_level", writeInteger records.zstdLevel.toInt)]

def writeConfig (config : Config) : List Char :=
  writeObject [("hash", writeString config.hash.keyword),
    ("storage_namespace", writeOctets config.storage.address),
    ("registry_namespace", writeOctets config.registry.address),
    ("records", writeRecords config.records)]

end SlotStorage.Json
