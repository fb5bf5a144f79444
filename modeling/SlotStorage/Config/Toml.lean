import SlotStorage.Config.Basic
import SlotStorage.Toml.Document

/-!
# Configurations as TOML

Every key may be left out, and unknown keys do not matter.  A structure may
also be written as an array of its fields, of which the last may be missing.
Every configuration has one written form, from which it can be read back.
-/

namespace SlotStorage.Toml

def Value.isEmpty : Value → Bool
  | .array items => items.isEmpty
  | .table _ entries => entries.isEmpty
  | .rows tables => tables.isEmpty
  | _ => false

/-- Reads one of some names: as a text, or as a table that gives the name an
empty value. -/
def choice? {α : Type} (named? : String → Option α) : Value → Option α
  | .string text => named? (String.ofList text)
  | .table _ [(name, value)] =>
    if value.isEmpty then named? (String.ofList name) else none
  | _ => none

def byte? : Value → Option UInt8
  | .integer number =>
    if 0 ≤ number ∧ number < 256 then some (UInt8.ofNat number.toNat) else none
  | _ => none

/-- Reads a fixed-width number: its hexadecimal digits as a text, or the array
of its bytes. -/
def octets? (width : Nat) : Value → Option (Octets width)
  | .string text => Octets.ofDocumentText? width text
  | .array items => (items.mapM byte?).bind (Octets.ofBytes? width)
  | _ => none

def namespace? (value : Value) : Option Namespace :=
  (octets? 20 value).map Namespace.mk

def int32? : Value → Option Int32
  | .integer number =>
    if -2147483648 ≤ number ∧ number < 2147483648 then
      some (Int32.ofInt number)
    else none
  | _ => none

/-- The fields of a structure: by name from a table, or by position from an
array. -/
inductive Fields where
  | named (entries : Entries)
  | placed (items : List Value)

namespace Fields

/-- The fields that a value holds.  A date holds none that a structure knows. -/
def ofValue? : Value → Option Fields
  | .table _ entries => some (.named entries)
  | .array items => some (.placed items)
  | .rows tables => some (.placed (tables.map (.table .header)))
  | .dateTime => some (.named [])
  | _ => none

/-- A field by its place and name; a missing one has the usual value. -/
def get? {α : Type} (fields : Fields) (place : Nat) (name : String)
    (read? : Value → Option α)
    (usual : α) : Option α :=
  let found := match fields with
    | .named entries => Entries.lookup? name.toList entries
    | .placed items => items[place]?
  match found with
  | some value => read? value
  | none => some usual

end Fields

def records? (value : Value) : Option RecordsConfig := do
  let fields ← Fields.ofValue? value
  let codec ← fields.get? 0 "codec" (choice? CodecKind.ofKeyword?)
    (default : RecordsConfig).codec
  let level ← fields.get? 1 "zstd_level" int32?
    (default : RecordsConfig).zstdLevel
  return ⟨codec, level⟩

def config? (entries : Entries) : Option Config := do
  let fields := Fields.named entries
  let hash ← fields.get? 0 "hash" (choice? HashAlgorithm.ofKeyword?)
    (default : Config).hash
  let storage ← fields.get? 1 "storage_namespace" namespace?
    (default : Config).storage
  let registry ← fields.get? 2 "registry_namespace" namespace?
    (default : Config).registry
  let records ← fields.get? 3 "records" records? (default : Config).records
  return ⟨hash, storage, registry, records⟩

end SlotStorage.Toml

namespace SlotStorage.Config

def ofToml (text : String) : Except ConfigError Config :=
  match (Toml.parse? text).bind Toml.config? with
  | none => .error .malformed
  | some config =>
    match config.validate with
    | .ok () => .ok config
    | .error error => .error error

/-- Reads a valid configuration from the bytes of a file, which may be
missing. -/
def ofFile (content : Option Bytes) : Except ConfigError Config :=
  match content with
  | none => .error .unreadable
  | some bytes =>
    match Utf8.toString? bytes with
    | .ok text => ofToml text
    | .error _ => .error .unreadable

/-- The written form of a configuration.  Writing is refused only for what TOML
cannot express: a missing value, a key that is no text, an integer beyond 64
bits.  A configuration has none of these, so it is always written, whether it
is valid or not. -/
def toToml (config : Config) : String :=
  "hash = \"" ++ config.hash.keyword ++ "\"\n"
    ++ "storage_namespace = \"" ++ config.storage.display ++ "\"\n"
    ++ "registry_namespace = \"" ++ config.registry.display ++ "\"\n"
    ++ "\n[records]\n"
    ++ "codec = \"" ++ config.records.codec.keyword ++ "\"\n"
    ++ "zstd_level = " ++ toString config.records.zstdLevel.toInt ++ "\n"

end SlotStorage.Config
