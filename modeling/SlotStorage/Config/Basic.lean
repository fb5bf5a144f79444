import SlotStorage.Hash.Hasher
import SlotStorage.Record.Frame

/-!
# Configurations

A configuration chooses the hash algorithm, the namespaces of records and of
the registry, and how records are written.  Two rules make it valid: the
namespaces differ, and a level at which records are compressed lies in the
range of levels.
-/

namespace SlotStorage

/-- The ways in which records can be written. -/
inductive CodecKind where
  | raw
  | zstd
  deriving DecidableEq, Repr

namespace CodecKind

instance : Inhabited CodecKind := ⟨.zstd⟩

def name : CodecKind → String
  | .raw => "Raw"
  | .zstd => "Zstd"

def keyword : CodecKind → String
  | .raw => "raw"
  | .zstd => "zstd"

def ofKeyword? (word : String) : Option CodecKind :=
  if word = "raw" then some .raw
  else if word = "zstd" then some .zstd
  else none

end CodecKind

/-- How records are written. -/
structure RecordsConfig where
  codec : CodecKind
  zstdLevel : Int32
  deriving DecidableEq

instance : Inhabited RecordsConfig := ⟨⟨.zstd, RecordCodec.defaultLevel⟩⟩

/-- A configuration. -/
structure Config where
  hash : HashAlgorithm
  storage : Namespace
  registry : Namespace
  records : RecordsConfig
  deriving DecidableEq

instance : Inhabited Config :=
  ⟨⟨default, .storageProcessor, .registryProcessor, default⟩⟩

/-- Why there is no configuration to use. -/
inductive ConfigError where
  | unreadable
  | malformed
  | sameNamespaces (space : Namespace)
  | levelOutside (level : Int32)
  deriving DecidableEq

namespace Config

def minLevel : Int := -131072

def maxLevel : Int := 22

end Config

def ConfigError.message : ConfigError → String
  | .unreadable => "configuration cannot be read"
  | .malformed => "configuration is malformed"
  | .sameNamespaces space =>
    "invalid configuration: storage and registry namespaces must differ (both "
      ++ space.display
      ++ ")"
  | .levelOutside level =>
    "invalid configuration: zstd_level " ++ toString level.toInt ++ " outside "
      ++ toString Config.minLevel ++ "..=" ++ toString Config.maxLevel

namespace Config

/-- Refuses a configuration that is not valid.  The namespaces are compared
first, and a level matters only if records are compressed. -/
def validate (config : Config) : Except ConfigError Unit :=
  if config.storage = config.registry then
    .error (.sameNamespaces config.storage)
  else if config.records.codec = .zstd
      ∧ ¬(minLevel ≤ config.records.zstdLevel.toInt
        ∧ config.records.zstdLevel.toInt ≤ maxLevel) then
    .error (.levelOutside config.records.zstdLevel)
  else .ok ()

def recordCodec (config : Config) : RecordCodec :=
  match config.records.codec with
  | .raw => .raw
  | .zstd => .zstd config.records.zstdLevel

end Config

end SlotStorage
