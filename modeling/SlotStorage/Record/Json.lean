import SlotStorage.Json.Reader
import SlotStorage.Json.Writer
import SlotStorage.Record.Metadata

/-!
# Metadata as JSON

Every field has to be there once.
-/

namespace SlotStorage.Json

/-- The fields of an annotation, as far as they have been read. -/
structure KeyedParts (α : Type) where
  key : Option String := none
  value : Option α := none

namespace KeyedParts

variable {α : Type}

def member (value : Reader α) (parts : KeyedParts α) (name : List Char) :
    Reader (KeyedParts α) := do
  if name = "key".toList then
    return { parts with key := ← fill parts.key string }
  else if name = "value".toList then
    return { parts with value := ← fill parts.value value }
  else
    skip
    return parts

def placed (value : Reader α) : Reader (Keyed α) := do
  mark '['
  let key ← item false string
  let value ← item true value
  mark ']'
  return ⟨key, value⟩

def complete (parts : KeyedParts α) : Reader (Keyed α) := do
  return ⟨← Reader.require parts.key, ← Reader.require parts.value⟩

end KeyedParts

def keyed {α : Type} (value : Reader α) : Reader (Keyed α) := do
  if (← ahead) = some '[' then KeyedParts.placed value
  else (← object (KeyedParts.member value) {}).complete

/-- The fields of metadata, as far as they have been read. -/
structure MetadataParts where
  expiresAt : Option UInt64 := none
  stringAnnotations : Option (List (Keyed String)) := none
  numericAnnotations : Option (List (Keyed UInt64)) := none
  owner : Option (Octets 20) := none

namespace MetadataParts

def member (parts : MetadataParts) (name : List Char) :
    Reader MetadataParts := do
  if name = "expires_at_block".toList then
    return { parts with expiresAt := ← fill parts.expiresAt uint64 }
  else if name = "string_annotations".toList then
    return { parts with
      stringAnnotations :=
        ← fill parts.stringAnnotations (array (keyed string)) }
  else if name = "numeric_annotations".toList then
    return { parts with
      numericAnnotations :=
        ← fill parts.numericAnnotations (array (keyed uint64)) }
  else if name = "owner".toList then
    return { parts with owner := ← fill parts.owner (octets 20) }
  else
    skip
    return parts

def placed : Reader Metadata := do
  mark '['
  let expiresAt ← item false uint64
  let stringAnnotations ← item true (array (keyed string))
  let numericAnnotations ← item true (array (keyed uint64))
  let owner ← item true (octets 20)
  mark ']'
  return ⟨expiresAt, stringAnnotations, numericAnnotations, owner⟩

def complete (parts : MetadataParts) : Reader Metadata := do
  return ⟨← Reader.require parts.expiresAt,
    ← Reader.require parts.stringAnnotations,
    ← Reader.require parts.numericAnnotations, ← Reader.require parts.owner⟩

end MetadataParts

def metadata : Reader Metadata := do
  if (← ahead) = some '[' then MetadataParts.placed
  else (← object MetadataParts.member {}).complete

/-- Writes an annotation whose value is written by the given function. -/
def writeKeyed {α : Type} (write : α → List Char) (entry : Keyed α) :
    List Char :=
  writeObject [("key", writeString entry.key), ("value", write entry.value)]

def writeMetadata (metadata : Metadata) : List Char :=
  writeObject [("expires_at_block", writeNatural metadata.expiresAt.toNat),
    ("string_annotations",
      writeArray (metadata.stringAnnotations.map (writeKeyed writeString))),
    ("numeric_annotations",
      writeArray (metadata.numericAnnotations.map
        (writeKeyed fun number => writeNatural number.toNat))),
    ("owner", writeOctets metadata.owner)]

end SlotStorage.Json
