import SlotStorage.Layout.Action
import SlotStorage.Record.Binary
import SlotStorage.Zstd.Frame

/-!
# Record frames

A stored record is a tag followed by the record's bytes, as they are or
compressed.  The tag alone decides how a frame is read, so a record can be read
whatever way records are written now.
-/

namespace SlotStorage

/-- Why an operation on records or entities failed.  Writing a record as bytes
and framing them is no cause: the bytes are put together in memory, no length
is refused, and compressing always gives a result (see `Compression`). -/
inductive RecordError where
  | emptyFrame
  | binary (cause : BinaryError)
  | decompression
  | unknownCodec (tag : UInt8)
  | entityExists (key : EntityKey)
  | entityNotFound (key : EntityKey)
  | layout (cause : LayoutError)
  deriving DecidableEq

def RecordError.message : RecordError → String
  | .emptyFrame => "serialization error: empty record frame"
  | .binary cause => "serialization error: " ++ cause.message
  | .decompression => "decompression failed"
  | .unknownCodec tag =>
    "unknown record codec tag: 0x" ++ String.ofList (Hex.encodeByte tag)
  | .entityExists key => "entity already exists: " ++ key.display
  | .entityNotFound key => "entity not found: " ++ key.display
  | .layout cause => "layout error: " ++ cause.message

/-- How records are written. -/
inductive RecordCodec where
  | raw
  | zstd (level : Int32)
  deriving DecidableEq, Repr

/-- A way to compress byte strings: what is written for a content at a level,
and the content that a written byte string has, if it has one.  It is assumed
that every content can be compressed at every level: a level outside the range
is moved into it, and a byte string in memory can always be extended. -/
class Compression where
  compress (level : Int32) (content : Bytes) : Bytes
  decompress? (body : Bytes) : Option Bytes

/-- Frames of plain blocks whatever the level; every kind of frame is read. -/
@[reducible] def Compression.plain : Compression where
  compress _ := Zstd.compress
  decompress? := Zstd.decompress?

namespace RecordCodec

/-- The level at which records are compressed unless another is chosen. -/
def defaultLevel : Int32 := 3

instance : Inhabited RecordCodec := ⟨.zstd defaultLevel⟩

def tag : RecordCodec → UInt8
  | .raw => 0x00
  | .zstd _ => 0x01

def describe : RecordCodec → String
  | .raw => "Raw"
  | .zstd level => "Zstd \x7b level: " ++ toString level.toInt ++ " \x7d"

def encode [Compression] (codec : RecordCodec) (payload : Bytes) : Bytes :=
  codec.tag :: match codec with
    | .raw => payload
    | .zstd level => Compression.compress level payload

def decode [Compression] : Bytes → Except RecordError Bytes
  | [] => .error .emptyFrame
  | tag :: body =>
    if tag = 0x00 then .ok body
    else if tag = 0x01 then
      match Compression.decompress? body with
      | some payload => .ok payload
      | none => .error .decompression
    else .error (.unknownCodec tag)

end RecordCodec

end SlotStorage
