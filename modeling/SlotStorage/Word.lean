import SlotStorage.Hex
import SlotStorage.Text.Utf8

/-!
# Words

Fixed-width numbers, seen as integers and as big-endian byte strings.  A
storage cell holds a word of 32 bytes; lengths and positions are kept in words
whose value fits in 64 bits.
-/

namespace SlotStorage

/-- A number of `width` bytes. -/
abbrev Octets (width : Nat) := BitVec (8 * width)

/-- The content of a storage cell: 32 bytes. -/
abbrev Word := Octets 32

/-- Why a text does not spell a fixed-width number. -/
inductive HexTextError where
  | invalidHex (cause : Hex.DecodeError)
  | invalidLength (expected actual : Nat)
  deriving DecidableEq, Repr

def HexTextError.message : HexTextError → String
  | .invalidHex cause => "invalid hex string: " ++ cause.message
  | .invalidLength expected actual =>
    "invalid byte length: expected " ++ toString expected ++ ", got "
      ++ toString actual

namespace Octets

variable {width : Nat}

def toBytes (number : Octets width) : Bytes :=
  Bytes.bigEndian width number.toNat

/-- The number that a byte string spells, cut to the width. -/
def ofBytes (width : Nat) (bytes : Bytes) : Octets width :=
  BitVec.ofNat (8 * width) (Bytes.ofBigEndian bytes)

/-- The number that a byte string of exactly the width spells. -/
def ofBytes? (width : Nat) (bytes : Bytes) : Option (Octets width) :=
  if bytes.length = width then some (ofBytes width bytes) else none

/-- The hexadecimal digits of a number, all of them and in lower case. -/
def toHex (number : Octets width) : String :=
  String.ofList (Hex.encode number.toBytes)

def display (number : Octets width) : String :=
  "0x" ++ number.toHex

/-- A text without the mark `0x` in front, if it is there. -/
def dropMark : List Char → List Char
  | '0' :: 'x' :: rest => rest
  | chars => chars

/-- Reads a number from its digits, with or without the mark `0x`.  An odd
count of bytes is reported before a byte that is no digit, and that before a
wrong length. -/
def parse (width : Nat) (text : String) : Except HexTextError (Octets width) :=
  match Hex.decode (Utf8.encode (dropMark text.toList)) with
  | .error cause => .error (.invalidHex cause)
  | .ok bytes =>
    match ofBytes? width bytes with
    | some number => .ok number
    | none => .error (.invalidLength width bytes.length)

/-- The rule for numbers inside documents: the mark may also be `0X`. -/
def ofDocumentText? (width : Nat) (text : List Char) : Option (Octets width) :=
  let digits := match text with
    | '0' :: 'x' :: rest => rest
    | '0' :: 'X' :: rest => rest
    | chars => chars
  match Hex.decode (Utf8.encode digits) with
  | .ok bytes => ofBytes? width bytes
  | .error _ => none

end Octets

namespace Word

/-- One more than the largest value of a word: the 256th power of two. -/
def bound : Nat :=
  0x10000000000000000000000000000000000000000000000000000000000000000

/-- One more than the largest count that a word can hold: the 64th power of
two. -/
def countBound : Nat := 0x10000000000000000

def ofCount (count : Nat) : Word :=
  BitVec.ofNat (8 * 32) count

/-- The count that a word holds, if its value fits in 64 bits. -/
def toCount? (word : Word) : Option Nat :=
  if word.toNat < countBound then some word.toNat else none

def ofUInt64 (number : UInt64) : Word :=
  ofCount number.toNat

/-- The 64-bit number that a word holds: its leading 24 bytes are zero and the
other eight are the number, most significant byte first. -/
def toUInt64? (word : Word) : Option UInt64 :=
  let bytes := word.toBytes
  if (bytes.take 24).all (· == 0) then
    some (UInt64.ofNat (Bytes.ofBigEndian (bytes.drop 24)))
  else none

/-- The 64-bit number equal to an integer, if there is one. -/
def narrow? (value : Nat) : Option UInt64 :=
  if value < bound then toUInt64? (BitVec.ofNat (8 * 32) value) else none

/-- The word that starts with the given bytes and is zero after them. -/
def leftAligned (bytes : Bytes) : Word :=
  Octets.ofBytes 32 (bytes ++ List.replicate (32 - bytes.length) 0)

end Word

end SlotStorage
