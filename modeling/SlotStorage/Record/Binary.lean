import SlotStorage.Record.Metadata

/-!
# The binary format of records

Numbers take eight bytes, least significant first.  Texts, byte strings and
lists start with their length as a number; a truth value and the mark of an
optional value take one byte.  The fields of a record follow each other in
order, and bytes after the record are left alone.
-/

namespace SlotStorage

/-- Why bytes could not be read as a record. -/
inductive BinaryError where
  | endOfInput
  | shortBody
  | invalidUtf8 (cause : Utf8.DecodeError)
  | invalidBool (byte : UInt8)
  | invalidOption (byte : UInt8)
  | wrongLength
  deriving DecidableEq

def BinaryError.message : BinaryError → String
  | .endOfInput => "io error: unexpected end of file"
  | .shortBody => "io error: "
  | .invalidUtf8 cause => "string is not valid utf8: " ++ cause.message
  | .invalidBool byte =>
    "invalid u8 while decoding bool, expected 0 or 1, found "
      ++ toString byte.toNat
  | .invalidOption byte =>
    "tag for enum is not valid, found " ++ toString byte.toNat
  | .wrongLength => "could not convert slice to array"

/-- Reads a value from the front of a byte string and gives back the bytes
after it. -/
abbrev BinaryReader (α : Type) := StateT Bytes (Except BinaryError) α

/-- How values of a type are written and read.  Writing has no failure: the
bytes are put together in memory, and the types of a record have a written form
for every value. -/
structure BinaryFormat (α : Type) where
  write : α → Bytes
  read : BinaryReader α

namespace BinaryFormat

def takeBytes (error : BinaryError) (count : Nat) : BinaryReader Bytes :=
  fun bytes =>
    if count ≤ bytes.length then .ok (bytes.take count, bytes.drop count)
    else .error error

def takeByte : BinaryReader UInt8
  | [] => .error .endOfInput
  | byte :: rest => .ok (byte, rest)

def writeNumber (number : Nat) : Bytes :=
  Bytes.littleEndian 8 number

def readNumber : BinaryReader Nat := do
  return Bytes.ofLittleEndian (← takeBytes .endOfInput 8)

def readBody : BinaryReader Bytes := do
  takeBytes .shortBody (← readNumber)

def uint64 : BinaryFormat UInt64 where
  write number := writeNumber number.toNat
  read := do return UInt64.ofNat (← readNumber)

def bool : BinaryFormat Bool where
  write value := [if value then 1 else 0]
  read := do
    let byte ← takeByte
    if byte = 0 then return false
    else if byte = 1 then return true
    else throw (.invalidBool byte)

def option {α : Type} (format : BinaryFormat α) : BinaryFormat (Option α) where
  write
    | none => [0]
    | some value => 1 :: format.write value
  read := do
    let byte ← takeByte
    if byte = 0 then return none
    else if byte = 1 then return some (← format.read)
    else throw (.invalidOption byte)

def string : BinaryFormat String where
  write text :=
    let body := Utf8.ofString text
    writeNumber body.length ++ body
  read := do
    match Utf8.toString? (← readBody) with
    | .ok text => return text
    | .error cause => throw (.invalidUtf8 cause)

def readMany {α : Type} (format : BinaryFormat α) : Nat → BinaryReader (List α)
  | 0 => return []
  | count + 1 => do
    let value ← format.read
    return value :: (← readMany format count)

def list {α : Type} (format : BinaryFormat α) : BinaryFormat (List α) where
  write values := writeNumber values.length ++ values.flatMap format.write
  read := do readMany format (← readNumber)

def octets (width : Nat) : BinaryFormat (Octets width) where
  write number := writeNumber width ++ number.toBytes
  read := do
    match Octets.ofBytes? width (← readBody) with
    | some number => return number
    | none => throw .wrongLength

/-- Annotations: the key and then the value. -/
def keyed {α : Type} (format : BinaryFormat α) : BinaryFormat (Keyed α) where
  write entry := string.write entry.key ++ format.write entry.value
  read := do
    let key ← string.read
    let value ← format.read
    return ⟨key, value⟩

def metadata : BinaryFormat Metadata where
  write record :=
    uint64.write record.expiresAt
      ++ (list (keyed string)).write record.stringAnnotations
      ++ (list (keyed uint64)).write record.numericAnnotations
      ++ (octets 20).write record.owner
  read := do
    let expiresAt ← uint64.read
    let stringAnnotations ← (list (keyed string)).read
    let numericAnnotations ← (list (keyed uint64)).read
    let owner ← (octets 20).read
    return ⟨expiresAt, stringAnnotations, numericAnnotations, owner⟩

def decode {α : Type} (format : BinaryFormat α) (bytes : Bytes) :
    Except BinaryError α :=
  (format.read.run bytes).map Prod.fst

end BinaryFormat

end SlotStorage
